/- The buffer of the pipeline.
   digest: Buffer of consensus/src/pipeline/buffer.rs, an ordered dictionary
   kept as a hash map of linked items with a head and a tail cursor:
   push_back, pop_front, the reads and writes at a cursor, find_elem_from and
   find_elem_by_key as the source runs them, against the list of entries the
   buffer holds; every operation does to that list what the ordered
   dictionary's operation does, so any run of operations on the buffer is a
   run of the list, as long as each pushed key is new. -/

import Mathlib
import GravitySdk.Lib.KeyMap
import GravitySdk.Lib.Chain
import GravitySdk.Lib.Checked
import GravitySdk.Lib.Transition
import GravitySdk.Consensus.Types

set_option autoImplicit false
set_option relaxedAutoImplicit false

namespace GravitySdk.Pipeline

open GravitySdk.Lib GravitySdk.Lib.Chain GravitySdk.Consensus

/-- `LinkedItem`: the element, `None` while a handler has taken it out, the
position at which it was pushed, and the key of the item after it. -/
structure LinkedItem (T : Type) where
  elem : Option T
  index : Nat
  next : Option HashValue
  deriving DecidableEq, Repr

/-- `Cursor`. -/
abbrev Cursor := Option HashValue

/-- `Buffer`. -/
structure Buffer (T : Type) where
  map : KeyMap HashValue (LinkedItem T)
  count : Nat
  head : Cursor
  tail : Cursor

namespace Buffer

variable {T : Type}

/-- `Buffer::new`. -/
def new : Buffer T := ⟨KeyMap.empty, 0, none, none⟩

section Operations

-- `Hashable::hash` of the elements; `none` is a panic, as `block_id` of a
-- buffer item without blocks
variable (hash : T → Option HashValue)

/-- `push_back`; `none` is a panic: the `checked_add` of the count, an
element whose hash panics, or a tail without an entry.  The new item is
inserted before the tail is relinked, as in the source. -/
def pushBack (b : Buffer T) (elem : T) : Option (Buffer T) := do
  let count ← Checked.add UInt64.size b.count 1
  let tHash ← hash elem
  let map := b.map.insert tHash ⟨some elem, count, none⟩
  let map ← match b.tail with
    | some tail => do
        let item ← map.get tail
        pure (map.insert tail { item with next := some tHash })
    | none => pure map
  pure ⟨map, count, some (b.head.getD tHash), some tHash⟩

end Operations

/-- `pop_front`: the element at the head, `none` inside on an empty buffer;
the outer `none` is the panic of a head without an entry or without its
element. -/
def popFront (b : Buffer T) : Option (Option T × Buffer T) :=
  match b.head with
  | none => some (none, b)
  | some head => do
      let item ← b.map.get head
      let elem ← item.elem
      pure (some elem, ⟨b.map.erase head, b.count, item.next, if item.next.isNone then none else b.tail⟩)

/-- `get_next`; `none` is the panic of its `unwrap`s. -/
def getNext (b : Buffer T) (cursor : Cursor) : Option Cursor := do
  let key ← cursor
  let item ← b.map.get key
  pure item.next

/-- `get`; `none` is the panic of its `unwrap`s, a taken element among them. -/
def get (b : Buffer T) (cursor : Cursor) : Option T := do
  let key ← cursor
  let item ← b.map.get key
  item.elem

/-- `set`. -/
def set (b : Buffer T) (cursor : Cursor) (newVal : T) : Option (Buffer T) := do
  let key ← cursor
  let item ← b.map.get key
  pure { b with map := b.map.insert key { item with elem := some newVal } }

/-- `take`: the element, and the buffer with its place left empty. -/
def take (b : Buffer T) (cursor : Cursor) : Option (T × Buffer T) := do
  let key ← cursor
  let item ← b.map.get key
  let elem ← item.elem
  pure (elem, { b with map := b.map.insert key { item with elem := none } })

/-- `exist`. -/
def exist (b : Buffer T) (cursor : Cursor) : Bool :=
  match cursor with
  | some key => (b.map.get key).isSome
  | none => false

/-- `find_elem_from`: the first item at or after `cursor` whose element
passes `compare`.  Its `while` loop follows the links; it runs here for one
round per entry of the map and one more, which covers any thread through the
map (`Threads.nodup`); `none` is a panic, a taken element met on the way. -/
def findElemFrom (b : Buffer T) (cursor : Cursor) (compare : T → Bool) : Option Cursor :=
  if !b.exist cursor then some none
  else findFrom b.map.get LinkedItem.next (fun item => item.elem.map compare) (b.map.size + 1) cursor

/-- `find_elem_by_key`: `key` when its item was pushed no earlier than the
item at `cursor`. -/
def findElemByKey (b : Buffer T) (cursor : Cursor) (key : HashValue) : Cursor := do
  let c ← cursor
  let cursorItem ← b.map.get c
  let item ← b.map.get key
  if item.index ≥ cursorItem.index then some key else none

/-! ### The ordered dictionary the buffer holds -/

/-- The keys of the entries, in order. -/
def keysOf (entries : List (HashValue × Option T)) : List HashValue := entries.map Prod.fst

/-- The entries from the one under `c` on; none when `c` is not a key. -/
def fromKey (entries : List (HashValue × Option T)) (c : HashValue) : List (HashValue × Option T) :=
  entries.dropWhile fun e => e.1 ≠ c

/-- The entries with the value under `k` replaced. -/
def replaceAt (entries : List (HashValue × Option T)) (k : HashValue) (x : Option T) :
    List (HashValue × Option T) :=
  entries.map fun e => if e.1 = k then (k, x) else e

/-- The search of `find_elem_from` over entries: the key of the first whose
element passes `compare`, and a panic at an empty place met before it. -/
def scan (compare : T → Bool) : List (HashValue × Option T) → Option Cursor
  | [] => some none
  | (_, none) :: _ => none
  | (k, some e) :: rest => if compare e then some (some k) else scan compare rest

/-- The position at which the item under a key was pushed. -/
def indexOf (b : Buffer T) (k : HashValue) : Nat := ((b.map.get k).map LinkedItem.index).getD 0

/-- The buffer holds `entries`, in order: its items are threaded from the head
through their links in the order of the entries, each with the entry's value,
the tail is the last, no other key has an item, and the positions increase
along the entries up to the count. -/
structure Holds (b : Buffer T) (entries : List (HashValue × Option T)) : Prop where
  threads : Threads b.map.get LinkedItem.next b.head (keysOf entries)
  tail : b.tail = (keysOf entries).getLast?
  elems : ∀ e ∈ entries, ∃ item, b.map.get e.1 = some item ∧ item.elem = e.2
  onlyEntries : ∀ k, (b.map.get k).isSome → k ∈ keysOf entries
  increasing : (keysOf entries).Pairwise fun k k' => b.indexOf k < b.indexOf k'
  counted : ∀ k item, b.map.get k = some item → item.index ≤ b.count

/-! ### Each operation on the entries -/

variable {b : Buffer T} {entries : List (HashValue × Option T)}

@[simp] theorem keysOf_nil : keysOf ([] : List (HashValue × Option T)) = [] := rfl

@[simp] theorem keysOf_cons (e : HashValue × Option T) (l : List (HashValue × Option T)) :
    keysOf (e :: l) = e.1 :: keysOf l := rfl

@[simp] theorem keysOf_append (l l' : List (HashValue × Option T)) : keysOf (l ++ l') = keysOf l ++ keysOf l' :=
  List.map_append

@[simp] theorem keysOf_replaceAt (l : List (HashValue × Option T)) (k : HashValue) (x : Option T) :
    keysOf (replaceAt l k x) = keysOf l := by
  unfold keysOf replaceAt
  rw [List.map_map]
  congr 1
  funext e
  by_cases same : e.1 = k <;> simp [same]

theorem holds_new : (new : Buffer T).Holds [] where
  threads := by simp [new]
  tail := rfl
  elems := by simp
  onlyEntries := by simp [new]
  increasing := List.Pairwise.nil
  counted := by simp [new]

theorem Holds.nodup (h : b.Holds entries) : (keysOf entries).Nodup := h.threads.nodup

theorem Holds.get_eq_none (h : b.Holds entries) {k : HashValue} (absent : k ∉ keysOf entries) :
    b.map.get k = none := by
  cases hk : b.map.get k with
  | none => rfl
  | some item => exact absurd (h.onlyEntries k (by simp [hk])) absent

theorem Holds.pushBack_of_nil (h : b.Holds []) {hash : T → Option HashValue} {elem : T} {key : HashValue}
    (hashed : hash elem = some key) (fits : b.count + 1 < UInt64.size) :
    ∃ b', b.pushBack hash elem = some b' ∧ b'.Holds [(key, some elem)] ∧ b'.count = b.count + 1 := by
  have counted : Checked.add UInt64.size b.count 1 = some (b.count + 1) := Checked.add_eq_some.mpr ⟨fits, rfl⟩
  let item : LinkedItem T := ⟨some elem, b.count + 1, none⟩
  -- the first item: the head and the tail both become the new key
  have noTail : b.tail = none := h.tail
  have noHead : b.head = none := threads_nil_iff.mp h.threads
  have empty : ∀ k, b.map.get k = none := fun k => h.get_eq_none (by simp)
  refine ⟨⟨b.map.insert key item, b.count + 1, some key, some key⟩, ?_, ?_, rfl⟩
  · simp [Buffer.pushBack, counted, hashed, noTail, noHead, item]
  · refine ⟨?_, rfl, ?_, ?_, ?_, ?_⟩
    · simp [keysOf, item]
    · simp [item]
    · intro k stored
      by_cases same : k = key
      · simp [same, keysOf]
      · simp [same, empty] at stored
    · simp [keysOf]
    · intro k item' stored
      by_cases same : k = key
      · simp [same, item] at stored
        rw [← stored]
      · simp [same, empty] at stored

theorem Holds.pushBack_of_concat {pre : List (HashValue × Option T)} {lastKey : HashValue}
    {lastElem : Option T} (h : b.Holds (pre ++ [(lastKey, lastElem)])) {hash : T → Option HashValue}
    {elem : T} {key : HashValue} (hashed : hash elem = some key)
    (fresh : key ∉ keysOf (pre ++ [(lastKey, lastElem)])) (fits : b.count + 1 < UInt64.size) :
    ∃ b', b.pushBack hash elem = some b' ∧ b'.Holds (pre ++ [(lastKey, lastElem)] ++ [(key, some elem)]) ∧
      b'.count = b.count + 1 := by
  have counted : Checked.add UInt64.size b.count 1 = some (b.count + 1) := Checked.add_eq_some.mpr ⟨fits, rfl⟩
  let item : LinkedItem T := ⟨some elem, b.count + 1, none⟩
  -- after the last key, which is relinked to the new one
  have keysEq : keysOf (pre ++ [(lastKey, lastElem)]) = keysOf pre ++ [lastKey] := by simp
  have tailIs : b.tail = some lastKey := by rw [h.tail, keysEq, List.getLast?_concat]
  obtain ⟨itemL, storedL, -⟩ : ∃ itemL, b.map.get lastKey = some itemL ∧ itemL.elem = lastElem :=
    h.elems (lastKey, lastElem) (by simp)
  have newNotLast : key ≠ lastKey := fun same => fresh (by rw [same, keysEq]; simp)
  have lastNotPre : lastKey ∉ keysOf pre := by
    have nodup := h.nodup
    rw [keysEq] at nodup
    intro mem
    exact (List.nodup_append.mp nodup).2.2 _ mem _ (List.mem_singleton_self _) rfl
  have headKept : some (b.head.getD key) = b.head := by
    obtain ⟨k₀, rest, split⟩ : ∃ k₀ rest, keysOf pre ++ [lastKey] = k₀ :: rest :=
      List.exists_cons_of_ne_nil (by simp)
    have threads := h.threads
    rw [keysEq, split] at threads
    rw [(threads_cons_iff.mp threads).1]
    rfl
  let map := (b.map.insert key item).insert lastKey { itemL with next := some key }
  have getMap : ∀ k, map.get k =
      if k = lastKey then some { itemL with next := some key } else if k = key then some item else b.map.get k := by
    intro k
    by_cases isLast : k = lastKey
    · simp [map, isLast]
    · simp [map, isLast]
  have oldKey : ∀ k ∈ keysOf (pre ++ [(lastKey, lastElem)]), k ≠ key := fun k mem same => fresh (same ▸ mem)
  refine ⟨⟨map, b.count + 1, b.head, some key⟩, ?_, ?_, rfl⟩
  · simp [Buffer.pushBack, counted, hashed, tailIs, storedL, Ne.symm newNotLast, headKept, map, item]
  · refine ⟨?_, by simp, ?_, ?_, ?_, ?_⟩
    · -- the thread grows by the new key after the last
      have keysNew : keysOf (pre ++ [(lastKey, lastElem)] ++ [(key, some elem)]) = keysOf pre ++ [lastKey, key] := by
        simp
      rw [keysNew]
      refine Threads.concat (by rw [← keysEq]; exact h.threads) ?_ ⟨{ itemL with next := some key }, by simp [getMap], rfl⟩
        ⟨item, by simp [getMap, newNotLast], rfl⟩
      intro k mem v stored
      have notLast : k ≠ lastKey := fun same => lastNotPre (same ▸ mem)
      have notNew : k ≠ key := oldKey k (by simp [mem])
      exact ⟨v, by simp [getMap, notLast, notNew, stored], rfl⟩
    · intro e mem
      rcases List.mem_append.mp mem with old | new
      · obtain ⟨item', stored', elemEq⟩ := h.elems e old
        have notNew : e.1 ≠ key := oldKey e.1 (List.mem_map_of_mem old)
        by_cases isLast : e.1 = lastKey
        · rw [isLast, storedL] at stored'
          cases stored'
          exact ⟨{ itemL with next := some key }, by simp [getMap, isLast], elemEq⟩
        · exact ⟨item', by simp [getMap, isLast, notNew, stored'], elemEq⟩
      · rw [List.mem_singleton] at new
        subst new
        exact ⟨item, by simp [getMap, newNotLast], rfl⟩
    · intro k stored
      by_cases isLast : k = lastKey
      · simp [isLast]
      · by_cases isNew : k = key
        · simp [isNew]
        · have old := h.onlyEntries k (by simpa [getMap, isLast, isNew] using stored)
          rw [keysOf_append]
          exact List.mem_append_left _ old
    · -- the new key comes last and was pushed after every other
      have indexOld : ∀ k ∈ keysOf (pre ++ [(lastKey, lastElem)]),
          indexOf ⟨map, b.count + 1, b.head, some key⟩ k = b.indexOf k := by
        intro k mem
        by_cases isLast : k = lastKey
        · simp [indexOf, getMap, isLast, storedL]
        · simp [indexOf, getMap, isLast, oldKey k mem]
      have indexNew : indexOf ⟨map, b.count + 1, b.head, some key⟩ key = b.count + 1 := by
        simp [indexOf, getMap, newNotLast, item]
      rw [keysOf_append, List.pairwise_append]
      refine ⟨?_, List.pairwise_singleton _ _, ?_⟩
      · refine h.increasing.imp_of_mem fun {k k'} mem mem' lt => ?_
        rw [indexOld k mem, indexOld k' mem']
        exact lt
      · intro k mem k' mem'
        rw [List.mem_singleton.mp mem', indexNew, indexOld k mem]
        obtain ⟨item', stored'⟩ : ∃ item', b.map.get k = some item' := by
          obtain ⟨e, eMem, rfl⟩ := List.mem_map.mp mem
          obtain ⟨item', stored', -⟩ := h.elems e eMem
          exact ⟨item', stored'⟩
        have := h.counted k item' stored'
        simp only [indexOf, stored', Option.map_some, Option.getD_some]
        omega
    · intro k item' stored
      by_cases isLast : k = lastKey
      · simp only [getMap, isLast, if_true, Option.some.injEq] at stored
        subst stored
        have := h.counted lastKey itemL storedL
        simp only
        omega
      · by_cases isNew : k = key
        · simp only [getMap, isNew, newNotLast, if_true, if_false, Option.some.injEq] at stored
          subst stored
          simp [item]
        · simp only [getMap, isLast, isNew, if_false] at stored
          have := h.counted k item' stored
          simp only
          omega

theorem Holds.pushBack (h : b.Holds entries) {hash : T → Option HashValue} {elem : T} {key : HashValue}
    (hashed : hash elem = some key) (fresh : key ∉ keysOf entries) (fits : b.count + 1 < UInt64.size) :
    ∃ b', b.pushBack hash elem = some b' ∧ b'.Holds (entries ++ [(key, some elem)]) ∧
      b'.count = b.count + 1 := by
  obtain rfl | ⟨pre, ⟨lastKey, lastElem⟩, rfl⟩ := List.eq_nil_or_concat' entries
  · exact h.pushBack_of_nil hashed fits
  · exact h.pushBack_of_concat hashed fresh fits

theorem pushBack_fits {hash : T → Option HashValue} {elem : T} {b' : Buffer T} (h : b.pushBack hash elem = some b') :
    b.count + 1 < UInt64.size := by
  simp only [pushBack, Option.bind_eq_bind, Option.bind_eq_some_iff] at h
  obtain ⟨count, counted, -⟩ := h
  exact (Checked.add_eq_some.mp counted).1

theorem Holds.head_eq (h : b.Holds entries) : b.head = (keysOf entries).head? :=
  h.threads.head?_eq.symm

theorem Holds.popFront_nil (h : b.Holds []) : b.popFront = some (none, b) := by
  simp [popFront, h.head_eq]

theorem Holds.popFront_cons {k : HashValue} {e : T} {rest : List (HashValue × Option T)}
    (h : b.Holds ((k, some e) :: rest)) :
    ∃ b', b.popFront = some (some e, b') ∧ b'.Holds rest ∧ b'.count = b.count := by
  have threads := h.threads
  rw [keysOf_cons] at threads
  obtain ⟨headIs, item, stored, threadsRest⟩ := threads_cons_iff.mp threads
  obtain ⟨item', stored', elemEq⟩ := h.elems (k, some e) (by simp)
  dsimp only at headIs stored elemEq stored'
  rw [stored, Option.some.injEq] at stored'
  subst stored'
  have notRest : k ∉ keysOf rest := (List.nodup_cons.mp h.nodup).1
  have getErased : ∀ k' ∈ keysOf rest, (b.map.erase k).get k' = b.map.get k' := fun k' mem => by
    have notHead : k' ≠ k := fun same => notRest (same ▸ mem)
    simp [notHead]
  refine ⟨⟨b.map.erase k, b.count, item.next, if item.next.isNone then none else b.tail⟩, ?_, ?_, rfl⟩
  · simp [popFront, headIs, stored, elemEq]
  · refine ⟨?_, ?_, ?_, ?_, ?_, ?_⟩
    · exact threadsRest.congr fun k' mem v stored => ⟨v, by rw [getErased k' mem, stored], rfl⟩
    · -- the tail goes with the last item
      have first := threadsRest.head?_eq
      cases hNext : item.next with
      | none =>
          rw [hNext, List.head?_eq_none_iff] at first
          simp [first]
      | some k' =>
          rw [hNext] at first
          obtain ⟨keys, split⟩ : ∃ keys, keysOf rest = k' :: keys := List.head?_eq_some_iff.mp first
          simp only [Option.isNone_some, Bool.false_eq_true, if_false]
          rw [h.tail, keysOf_cons, split, List.getLast?_cons_cons]
    · intro e' mem
      obtain ⟨item', stored', elemEq'⟩ := h.elems e' (List.mem_cons_of_mem _ mem)
      exact ⟨item', by rw [getErased e'.1 (List.mem_map_of_mem mem), stored'], elemEq'⟩
    · intro k' stored'
      have notHead : k' ≠ k := by
        rintro rfl
        simp at stored'
      have old := h.onlyEntries k' (by simpa [notHead] using stored')
      exact (List.mem_cons.mp old).resolve_left notHead
    · have increasing := (List.pairwise_cons.mp h.increasing).2
      refine increasing.imp_of_mem fun {k₁ k₂} mem₁ mem₂ lt => ?_
      simpa [indexOf, getErased k₁ mem₁, getErased k₂ mem₂] using lt
    · intro k' item' stored'
      have notHead : k' ≠ k := by
        rintro rfl
        simp at stored'
      exact h.counted k' item' (by simpa [notHead] using stored')

@[simp] theorem replaceAt_replaceAt (l : List (HashValue × Option T)) (k : HashValue) (x y : Option T) :
    replaceAt (replaceAt l k x) k y = replaceAt l k y := by
  unfold replaceAt
  rw [List.map_map]
  congr 1
  funext e
  by_cases same : e.1 = k <;> simp [same]

theorem replaceAt_append (l l' : List (HashValue × Option T)) (k : HashValue) (x : Option T) :
    replaceAt (l ++ l') k x = replaceAt l k x ++ replaceAt l' k x :=
  List.map_append

theorem replaceAt_of_absent {l : List (HashValue × Option T)} {k : HashValue} (absent : k ∉ keysOf l) (x : Option T) :
    replaceAt l k x = l := by
  induction l with
  | nil => rfl
  | cons e rest ih =>
      have notHead : e.1 ≠ k := fun same => absent (by simp [← same])
      have notRest : k ∉ keysOf rest := fun mem => absent (by simp [mem])
      simp only [replaceAt, List.map_cons, notHead, if_false] at ih ⊢
      rw [ih notRest]

theorem Holds.replace (h : b.Holds entries) {k : HashValue} {item : LinkedItem T}
    (stored : b.map.get k = some item) (x : Option T) :
    ({ b with map := b.map.insert k { item with elem := x } } : Buffer T).Holds (replaceAt entries k x) := by
  have getNew : ∀ k', (b.map.insert k { item with elem := x }).get k' =
      if k' = k then some { item with elem := x } else b.map.get k' := fun k' => by simp
  have indexSame : ∀ k', indexOf ({ b with map := b.map.insert k { item with elem := x } } : Buffer T) k' =
      b.indexOf k' := fun k' => by
    by_cases same : k' = k
    · simp [indexOf, same, stored]
    · simp [indexOf, same]
  refine ⟨?_, ?_, ?_, ?_, ?_, ?_⟩
  · rw [keysOf_replaceAt]
    refine h.threads.congr fun k' _ v stored' => ?_
    by_cases same : k' = k
    · subst same
      rw [stored, Option.some.injEq] at stored'
      subst stored'
      exact ⟨{ item with elem := x }, by simp, rfl⟩
    · exact ⟨v, by simp [same, stored'], rfl⟩
  · simpa using h.tail
  · intro e mem
    obtain ⟨e₀, mem₀, rfl⟩ := List.mem_map.mp mem
    by_cases same : e₀.1 = k
    · exact ⟨{ item with elem := x }, by simp [same], by simp [same]⟩
    · obtain ⟨item', stored', elemEq⟩ := h.elems e₀ mem₀
      exact ⟨item', by simp [same, stored'], by simp [same, elemEq]⟩
  · intro k' stored'
    rw [keysOf_replaceAt]
    by_cases same : k' = k
    · exact same ▸ h.onlyEntries k (by simp [stored])
    · exact h.onlyEntries k' (by simpa [same] using stored')
  · rw [keysOf_replaceAt]
    simpa only [indexSame] using h.increasing
  · intro k' item' stored'
    by_cases same : k' = k
    · simp only [getNew, same, if_true, Option.some.injEq] at stored'
      subst stored'
      exact h.counted k item stored
    · exact h.counted k' item' (by simpa [same] using stored')

theorem Holds.get_of_key (h : b.Holds entries) {k : HashValue} (mem : k ∈ keysOf entries) :
    ∃ item, b.map.get k = some item ∧ (k, item.elem) ∈ entries := by
  obtain ⟨e, eMem, rfl⟩ := List.mem_map.mp mem
  obtain ⟨item, stored, elemEq⟩ := h.elems e eMem
  exact ⟨item, stored, by rw [elemEq]; exact eMem⟩

theorem Holds.set (h : b.Holds entries) {k : HashValue} (mem : k ∈ keysOf entries) (v : T) :
    ∃ b', b.set (some k) v = some b' ∧ b'.Holds (replaceAt entries k (some v)) ∧ b'.head = b.head ∧
      b'.count = b.count := by
  obtain ⟨item, stored, -⟩ := h.get_of_key mem
  exact ⟨_, by simp [Buffer.set, stored], h.replace stored (some v), rfl, rfl⟩

theorem Holds.take (h : b.Holds entries) {k : HashValue} {e : T} (mem : (k, some e) ∈ entries) :
    ∃ b', b.take (some k) = some (e, b') ∧ b'.Holds (replaceAt entries k none) ∧ b'.head = b.head ∧
      b'.count = b.count := by
  obtain ⟨item, stored, elemEq⟩ := h.elems (k, some e) mem
  exact ⟨_, by simp [Buffer.take, stored, elemEq], h.replace stored none, rfl, rfl⟩

theorem Holds.get_eq (h : b.Holds entries) {k : HashValue} {x : Option T} (mem : (k, x) ∈ entries) :
    b.get (some k) = x := by
  obtain ⟨item, stored, elemEq⟩ := h.elems (k, x) mem
  simp [Buffer.get, stored, elemEq]

theorem Holds.getNext_eq {pre post : List (HashValue × Option T)} {k : HashValue} {x : Option T}
    (h : b.Holds (pre ++ (k, x) :: post)) : b.getNext (some k) = some (keysOf post).head? := by
  obtain ⟨item, stored, -⟩ := h.elems (k, x) (by simp)
  have threads := h.threads
  rw [keysOf_append, keysOf_cons] at threads
  simp [Buffer.getNext, stored, threads.next_eq stored]

theorem fromKey_of_split {pre post : List (HashValue × Option T)} {e : HashValue × Option T}
    (absent : e.1 ∉ keysOf pre) : fromKey (pre ++ e :: post) e.1 = e :: post := by
  unfold fromKey
  rw [List.dropWhile_append_of_pos fun e' mem => ?_]
  · simp
  · have : e'.1 ≠ e.1 := fun same => absent (same ▸ List.mem_map_of_mem mem)
    simpa using this

theorem fromKey_of_absent {c : HashValue} (absent : c ∉ keysOf entries) : fromKey entries c = [] := by
  unfold fromKey
  rw [List.dropWhile_eq_nil_iff]
  intro e mem
  have : e.1 ≠ c := fun same => absent (same ▸ List.mem_map_of_mem mem)
  simpa using this

theorem Holds.split_of_key (h : b.Holds entries) {c : HashValue} (mem : c ∈ keysOf entries) :
    ∃ pre post x, entries = pre ++ (c, x) :: post ∧ c ∉ keysOf pre := by
  obtain ⟨⟨c', x⟩, eMem, rfl⟩ := List.mem_map.mp mem
  obtain ⟨pre, post, split⟩ := List.append_of_mem eMem
  refine ⟨pre, post, x, split, fun inPre => ?_⟩
  have nodup := h.nodup
  rw [split, keysOf_append, keysOf_cons] at nodup
  exact (List.nodup_append.mp nodup).2.2 _ inPre _ List.mem_cons_self rfl

theorem findIn_eq_scan {compare : T → Bool} {l : List (HashValue × Option T)}
    (elems : ∀ e ∈ l, ∃ item, b.map.get e.1 = some item ∧ item.elem = e.2) :
    findIn b.map.get (fun item => item.elem.map compare) (keysOf l) = scan compare l := by
  induction l with
  | nil => rfl
  | cons e rest ih =>
      obtain ⟨k, x⟩ := e
      obtain ⟨item, stored, elemEq⟩ := elems (k, x) List.mem_cons_self
      have later := ih fun e' mem => elems e' (List.mem_cons_of_mem _ mem)
      cases x with
      | none => simp [findIn, scan, stored, elemEq]
      | some e =>
          by_cases hit : compare e
          · simp [findIn, scan, stored, elemEq, hit]
          · simp [findIn, scan, stored, elemEq, hit, later]

theorem Holds.findElemFrom_eq (h : b.Holds entries) (c : HashValue) (compare : T → Bool) :
    b.findElemFrom (some c) compare = scan compare (fromKey entries c) := by
  by_cases mem : c ∈ keysOf entries
  · obtain ⟨pre, post, x, rfl, absent⟩ := h.split_of_key mem
    obtain ⟨item, stored, -⟩ := h.get_of_key mem
    rw [fromKey_of_split (e := (c, x)) absent]
    have threads : Threads b.map.get LinkedItem.next (some c) (keysOf ((c, x) :: post)) := by
      have whole := h.threads
      rw [keysOf_append, keysOf_cons] at whole
      exact whole.from_mem
    have fits : (keysOf ((c, x) :: post)).length < b.map.size + 1 := by
      have covered := KeyMap.length_le_size h.nodup fun k mem => by
        obtain ⟨item, stored, -⟩ := h.get_of_key mem
        rw [stored]; rfl
      simp only [keysOf_append, keysOf_cons, List.length_append, List.length_cons] at covered ⊢
      omega
    have exists' : b.exist (some c) = true := by simp [exist, stored]
    rw [findElemFrom, if_neg (by simp [exists']), threads.findFrom_eq _ fits,
      findIn_eq_scan fun e eMem => h.elems e (List.mem_append_right pre eMem)]
  · have stored : b.map.get c = none := h.get_eq_none mem
    simp [findElemFrom, exist, stored, fromKey_of_absent mem, scan]

theorem Holds.findElemByKey_eq (h : b.Holds entries) (c key : HashValue) :
    b.findElemByKey (some c) key = if key ∈ keysOf (fromKey entries c) then some key else none := by
  by_cases mem : c ∈ keysOf entries
  · obtain ⟨pre, post, x, rfl, absent⟩ := h.split_of_key mem
    obtain ⟨itemC, storedC, -⟩ := h.get_of_key mem
    rw [fromKey_of_split (e := (c, x)) absent, keysOf_cons]
    by_cases keyMem : key ∈ keysOf (pre ++ (c, x) :: post)
    · obtain ⟨itemK, storedK, -⟩ := h.get_of_key keyMem
      have increasing := h.increasing
      rw [keysOf_append, keysOf_cons] at increasing keyMem
      have order := le_label_iff increasing keyMem
      simp only [indexOf, storedC, storedK, Option.map_some, Option.getD_some] at order
      simp only [findElemByKey, storedC, storedK, Option.bind_eq_bind, Option.bind_some, ge_iff_le, List.mem_cons]
      by_cases after : itemC.index ≤ itemK.index
      · simp [after, order.mp after]
      · have : ¬(key = c ∨ key ∈ keysOf post) := fun later => after (order.mpr later)
        simp [after, this]
    · have storedK := h.get_eq_none keyMem
      have notAfter : key ∉ c :: keysOf post := fun later => keyMem (by simp at later ⊢; tauto)
      simp [findElemByKey, storedK, notAfter]
  · simp [findElemByKey, h.get_eq_none mem, fromKey_of_absent mem]

theorem mem_of_lookup_eq_some {l : List (HashValue × Option T)} {k : HashValue} {x : Option T}
    (h : l.lookup k = some x) : (k, x) ∈ l := by
  induction l with
  | nil => cases h
  | cons e rest ih =>
      obtain ⟨k', x'⟩ := e
      by_cases same : k = k'
      · subst same
        simp only [List.lookup_cons_self, Option.some.injEq] at h
        subst h
        exact List.mem_cons_self
      · rw [KeyMap.lookup_cons_eq, if_neg same] at h
        exact List.mem_cons_of_mem _ (ih h)

/-! ### Runs of operations -/

/-- The operations of the buffer. -/
inductive Op (T : Type) where
  | pushBack (elem : T)
  | popFront
  | set (cursor : Cursor) (newVal : T)
  | take (cursor : Cursor)
  | get (cursor : Cursor)
  | getNext (cursor : Cursor)
  | findElemFrom (cursor : Cursor) (compare : T → Bool)
  | findElemByKey (cursor : Cursor) (key : HashValue)

/-- What an operation returns. -/
inductive Reply (T : Type) where
  | done
  | elem (elem : Option T)
  | cursor (cursor : Cursor)
  deriving DecidableEq, Repr

section Runs

variable (hash : T → Option HashValue)

/-- An operation on the buffer; `none` is a panic. -/
def apply (b : Buffer T) : Op T → Option (Buffer T × Reply T)
  | .pushBack elem => (b.pushBack hash elem).map (·, .done)
  | .popFront => b.popFront.map fun r => (r.2, .elem r.1)
  | .set cursor newVal => (b.set cursor newVal).map (·, .done)
  | .take cursor => (b.take cursor).map fun r => (r.2, .elem (some r.1))
  | .get cursor => (b.get cursor).map fun e => (b, .elem (some e))
  | .getNext cursor => (b.getNext cursor).map fun c => (b, .cursor c)
  | .findElemFrom cursor compare => (b.findElemFrom cursor compare).map fun c => (b, .cursor c)
  | .findElemByKey cursor key => some (b, .cursor (b.findElemByKey cursor key))

/-- The ordered dictionary the buffer implements, on its list of entries;
`none` where the buffer panics, and on a push of a key already held, which the
buffer does not guard against. -/
def dictApply (entries : List (HashValue × Option T)) : Op T → Option (List (HashValue × Option T) × Reply T)
  | .pushBack elem => do
      let key ← hash elem
      if key ∈ keysOf entries then none else pure (entries ++ [(key, some elem)], .done)
  | .popFront =>
      match entries with
      | [] => pure ([], .elem none)
      | (_, some e) :: rest => pure (rest, .elem (some e))
      | (_, none) :: _ => none
  | .set cursor newVal => do
      let key ← cursor
      if key ∈ keysOf entries then pure (replaceAt entries key (some newVal), .done) else none
  | .take cursor => do
      let key ← cursor
      let e ← (entries.lookup key).join
      pure (replaceAt entries key none, .elem (some e))
  | .get cursor => do
      let key ← cursor
      let e ← (entries.lookup key).join
      pure (entries, .elem (some e))
  | .getNext cursor => do
      let key ← cursor
      if key ∈ keysOf entries then pure (entries, .cursor (keysOf (fromKey entries key)).tail.head?) else none
  | .findElemFrom cursor compare =>
      match cursor with
      | none => pure (entries, .cursor none)
      | some c => (scan compare (fromKey entries c)).map fun found => (entries, .cursor found)
  | .findElemByKey cursor key =>
      match cursor with
      | none => pure (entries, .cursor none)
      | some c => pure (entries, .cursor (if key ∈ keysOf (fromKey entries c) then some key else none))

theorem Holds.apply (h : b.Holds entries) (fits : b.count + 1 < UInt64.size) {op : Op T}
    {entries' : List (HashValue × Option T)} {r : Reply T} (abstract : dictApply hash entries op = some (entries', r)) :
    ∃ b', b.apply hash op = some (b', r) ∧ b'.Holds entries' ∧ b'.count ≤ b.count + 1 := by
  cases op with
  | pushBack elem =>
      simp only [dictApply, Option.bind_eq_bind, Option.bind_eq_some_iff] at abstract
      obtain ⟨key, hashed, abstract⟩ := abstract
      split at abstract
      · cases abstract
      · rename_i fresh
        simp only [Option.pure_def, Option.some.injEq, Prod.mk.injEq] at abstract
        obtain ⟨rfl, rfl⟩ := abstract
        obtain ⟨b', pushed, holds, counted⟩ := h.pushBack hashed fresh fits
        exact ⟨b', by simp [Buffer.apply, pushed], holds, counted.le⟩
  | popFront =>
      match entries, h, abstract with
      | [], h, abstract =>
          simp only [dictApply, Option.pure_def, Option.some.injEq, Prod.mk.injEq] at abstract
          obtain ⟨rfl, rfl⟩ := abstract
          exact ⟨b, by simp [Buffer.apply, h.popFront_nil], h, by omega⟩
      | (k, some e) :: rest, h, abstract =>
          simp only [dictApply, Option.pure_def, Option.some.injEq, Prod.mk.injEq] at abstract
          obtain ⟨rfl, rfl⟩ := abstract
          obtain ⟨b', popped, holds, counted⟩ := h.popFront_cons
          exact ⟨b', by simp [Buffer.apply, popped], holds, by omega⟩
      | (k, none) :: rest, h, abstract => cases abstract
  | set cursor newVal =>
      cases cursor with
      | none => cases abstract
      | some key =>
          simp only [dictApply, Option.bind_eq_bind, Option.bind_some] at abstract
          split at abstract
          · rename_i mem
            simp only [Option.pure_def, Option.some.injEq, Prod.mk.injEq] at abstract
            obtain ⟨rfl, rfl⟩ := abstract
            obtain ⟨b', written, holds, -, counted⟩ := h.set mem newVal
            exact ⟨b', by simp [Buffer.apply, written], holds, by omega⟩
          · cases abstract
  | take cursor =>
      cases cursor with
      | none => cases abstract
      | some key =>
          simp only [dictApply, Option.bind_eq_bind, Option.bind_some, Option.bind_eq_some_iff] at abstract
          obtain ⟨e, found, abstract⟩ := abstract
          simp only [Option.pure_def, Option.some.injEq, Prod.mk.injEq] at abstract
          obtain ⟨rfl, rfl⟩ := abstract
          have looked := Option.join_eq_some_iff.mp found
          obtain ⟨b', taken, holds, -, counted⟩ := h.take (mem_of_lookup_eq_some looked)
          exact ⟨b', by simp [Buffer.apply, taken], holds, by omega⟩
  | get cursor =>
      cases cursor with
      | none => cases abstract
      | some key =>
          simp only [dictApply, Option.bind_eq_bind, Option.bind_some, Option.bind_eq_some_iff] at abstract
          obtain ⟨e, found, abstract⟩ := abstract
          simp only [Option.pure_def, Option.some.injEq, Prod.mk.injEq] at abstract
          obtain ⟨rfl, rfl⟩ := abstract
          have looked := Option.join_eq_some_iff.mp found
          exact ⟨b, by simp [Buffer.apply, h.get_eq (mem_of_lookup_eq_some looked)], h, by omega⟩
  | getNext cursor =>
      cases cursor with
      | none => cases abstract
      | some key =>
          simp only [dictApply, Option.bind_eq_bind, Option.bind_some] at abstract
          split at abstract
          · rename_i mem
            simp only [Option.pure_def, Option.some.injEq, Prod.mk.injEq] at abstract
            obtain ⟨rfl, rfl⟩ := abstract
            obtain ⟨pre, post, x, rfl, absent⟩ := h.split_of_key mem
            rw [fromKey_of_split (e := (key, x)) absent]
            exact ⟨b, by simp [Buffer.apply, h.getNext_eq], h, by omega⟩
          · cases abstract
  | findElemFrom cursor compare =>
      cases cursor with
      | none =>
          simp only [dictApply, Option.pure_def, Option.some.injEq, Prod.mk.injEq] at abstract
          obtain ⟨rfl, rfl⟩ := abstract
          exact ⟨b, by simp [Buffer.apply, findElemFrom, exist], h, by omega⟩
      | some c =>
          simp only [dictApply, Option.map_eq_some_iff] at abstract
          obtain ⟨found, scanned, eq⟩ := abstract
          simp only [Prod.mk.injEq] at eq
          obtain ⟨rfl, rfl⟩ := eq
          exact ⟨b, by simp [Buffer.apply, h.findElemFrom_eq, scanned], h, by omega⟩
  | findElemByKey cursor key =>
      cases cursor with
      | none =>
          simp only [dictApply, Option.pure_def, Option.some.injEq, Prod.mk.injEq] at abstract
          obtain ⟨rfl, rfl⟩ := abstract
          exact ⟨b, by simp [Buffer.apply, findElemByKey], h, by omega⟩
      | some c =>
          simp only [dictApply, Option.pure_def, Option.some.injEq, Prod.mk.injEq] at abstract
          obtain ⟨rfl, rfl⟩ := abstract
          exact ⟨b, by simp [Buffer.apply, h.findElemByKey_eq], h, by omega⟩

/-- The buffer implements the ordered dictionary: every run of operations from
an empty buffer that the dictionary completes, fewer than `2^64` of them, is a
run of the buffer with the same replies, ending in a buffer that holds the
dictionary's entries. -/
theorem buffer_runs_as_dict {ops : List (Op T)} {entries : List (HashValue × Option T)} {rs : List (Reply T)}
    (fits : ops.length < UInt64.size) (abstract : Transition.run (dictApply hash) [] ops = some (entries, rs)) :
    ∃ b, Transition.run (Buffer.apply hash) new ops = some (b, rs) ∧ b.Holds entries := by
  have sim := Transition.run_simulates (fun n (b : Buffer T) entries => b.Holds entries ∧ b.count + n < UInt64.size)
    (fun n b entries op entries' r related stepped => by
      obtain ⟨holds, bound⟩ := related
      obtain ⟨b', applied, holds', counted⟩ := holds.apply hash (by omega) stepped
      exact ⟨b', applied, holds', by omega⟩)
    (n := 0) (s := new) ⟨holds_new, by simpa [new] using fits⟩ abstract
  obtain ⟨b, ran, holds, -⟩ := sim
  exact ⟨b, ran, holds⟩

/-- Two pushes, a search by key from the first, and a pop. -/
theorem buffer_runs_as_dict_two_pushes :
    [Op.pushBack 1, .pushBack 2, .findElemByKey (some 1) 2, .popFront].length < UInt64.size ∧
    Transition.run (dictApply fun n : Nat => some n) [] [.pushBack 1, .pushBack 2, .findElemByKey (some 1) 2, .popFront] =
      some ([(2, some 2)], [.done, .done, .cursor (some 2), .elem (some 1)]) ∧
    ∃ b, Transition.run (Buffer.apply fun n : Nat => some n) new
        [.pushBack 1, .pushBack 2, .findElemByKey (some 1) 2, .popFront] =
          some (b, [.done, .done, .cursor (some 2), .elem (some 1)]) ∧ b.Holds [(2, some 2)] :=
  have ran : Transition.run (dictApply fun n : Nat => some n) [] [.pushBack 1, .pushBack 2, .findElemByKey (some 1) 2, .popFront] =
      some ([(2, some 2)], [.done, .done, .cursor (some 2), .elem (some 1)]) := by decide
  ⟨by decide, ran, buffer_runs_as_dict (fun n : Nat => some n) (by decide) ran⟩

end Runs

end Buffer

end GravitySdk.Pipeline

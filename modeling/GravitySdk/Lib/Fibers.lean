/- Lists seen one key at a time.
   digest: The fiber of a key in a list (the items with that key, in their
   order), how fibers split over appends, that a list whose fibers are
   prefixes of another list's fibers is a sub-multiset of it and, when it is
   as long, a permutation of it with the same fibers; and the window of the
   last `w` items of a list, and how it slides when an item is appended. -/

import Mathlib

set_option autoImplicit false
set_option relaxedAutoImplicit false

namespace GravitySdk.Lib.Fibers

variable {α κ : Type} [DecidableEq κ] (key : α → κ)

/-- The items of `l` whose key is `k`, in their order in `l`. -/
def fiber (k : κ) (l : List α) : List α := l.filter fun x => key x = k

/-- The items of `l` whose key no earlier item has and `seen` does not hold,
in their order in `l`: the first item of each key. -/
def keepFirst (seen : List κ) : List α → List α
  | [] => []
  | x :: l => if key x ∈ seen then keepFirst seen l else x :: keepFirst (key x :: seen) l

/-- The last `w` items of `l`, all of them when `l` is shorter. -/
def window (w : Nat) (l : List α) : List α := l.drop (l.length - w)

section Fiber

variable {key}

@[simp] theorem fiber_nil (k : κ) : fiber key k [] = [] := rfl

@[simp] theorem fiber_append (k : κ) (l l' : List α) :
    fiber key k (l ++ l') = fiber key k l ++ fiber key k l' :=
  List.filter_append l l'

@[simp] theorem fiber_cons_self (x : α) (l : List α) :
    fiber key (key x) (x :: l) = x :: fiber key (key x) l := by
  simp [fiber]

@[simp] theorem fiber_cons_of_ne {k : κ} {x : α} (l : List α) (other : key x ≠ k) :
    fiber key k (x :: l) = fiber key k l := by
  simp [fiber, other]

theorem mem_fiber {k : κ} {x : α} {l : List α} : x ∈ fiber key k l ↔ x ∈ l ∧ key x = k := by
  simp [fiber]

theorem fiber_eq_nil_iff {k : κ} {l : List α} : fiber key k l = [] ↔ ∀ x ∈ l, key x ≠ k := by
  simp [fiber, List.filter_eq_nil_iff]

theorem length_fiber_pos {k : κ} {l : List α} : 0 < (fiber key k l).length ↔ k ∈ l.map key := by
  rw [List.length_pos_iff, Ne, fiber_eq_nil_iff]
  simp

theorem count_fiber [DecidableEq α] (x : α) (l : List α) : (fiber key (key x) l).count x = l.count x := by
  simp [fiber, List.count_filter]

theorem subperm_of_fibers {l l' : List α} (h : ∀ k, fiber key k l <+: fiber key k l') : l.Subperm l' := by
  classical
  rw [List.subperm_ext_iff]
  intro x _
  have inL : (fiber key (key x) l).count x = l.count x := count_fiber x l
  have inL' : (fiber key (key x) l').count x = l'.count x := count_fiber x l'
  rw [← inL, ← inL']
  exact (h (key x)).sublist.count_le x

theorem perm_of_fibers {l l' : List α} (h : ∀ k, fiber key k l = fiber key k l') : l.Perm l' :=
  (subperm_of_fibers fun k => ⟨[], by rw [List.append_nil, h k]⟩).antisymm
    (subperm_of_fibers fun k => ⟨[], by rw [List.append_nil, h k]⟩)

theorem extra_eq_nil {l l' : List α} {extra : κ → List α} (h : ∀ k, fiber key k l ++ extra k = fiber key k l')
    (long : l'.length ≤ l.length) (k : κ) : extra k = [] := by
  have sub : l.Subperm l' := subperm_of_fibers fun k => ⟨extra k, h k⟩
  have same : (fiber key k l).length = (fiber key k l').length :=
    ((sub.perm_of_length_le long).filter _).length_eq
  have lengths := congrArg List.length (h k)
  rw [List.length_append, ← same] at lengths
  exact List.length_eq_zero_iff.mp (by omega)

theorem length_le_of_fibers {l l' : List α} {extra : κ → List α} (h : ∀ k, fiber key k l ++ extra k = fiber key k l') :
    l.length ≤ l'.length :=
  (subperm_of_fibers fun k => ⟨extra k, h k⟩).length_le

end Fiber

section KeepFirst

variable {key}

/-- A list whose keys are distinct and new keeps all its items. -/
theorem keepFirst_of_nodup {seen : List κ} {l : List α} (nodup : (l.map key).Nodup) (fresh : ∀ x ∈ l, key x ∉ seen) :
    keepFirst key seen l = l := by
  induction l generalizing seen with
  | nil => rfl
  | cons x l ih =>
      rw [List.map_cons, List.nodup_cons] at nodup
      have rest : ∀ y ∈ l, key y ∉ key x :: seen := by
        intro y mem inSeen
        rcases List.mem_cons.mp inSeen with same | old
        · exact nodup.1 (same ▸ List.mem_map_of_mem mem)
        · exact fresh y (List.mem_cons_of_mem _ mem) old
      rw [keepFirst, if_neg (fresh x List.mem_cons_self), ih nodup.2 rest]

end KeepFirst

section Window

variable {w : Nat} {l : List α}

@[simp] theorem window_zero (l : List α) : window 0 l = [] := by
  simp [window]

theorem window_suffix (w : Nat) (l : List α) : window w l <:+ l :=
  List.drop_suffix _ _

theorem window_concat_of_lt (x : α) (short : l.length < w) : window w (l ++ [x]) = l ++ [x] := by
  have none : (l ++ [x]).length - w = 0 := by
    simp only [List.length_append, List.length_singleton]
    omega
  rw [window, none, List.drop_zero]

theorem window_concat_of_le (x : α) (pos : 0 < w) (full : w ≤ l.length) :
    ∃ oldest rest, l[l.length - w]? = some oldest ∧ window w l = oldest :: rest ∧
      window w (l ++ [x]) = rest ++ [x] := by
  have within : l.length - w < l.length := by omega
  have shift : (l ++ [x]).length - w = l.length - w + 1 := by
    simp only [List.length_append, List.length_singleton]
    omega
  refine ⟨l[l.length - w], l.drop (l.length - w + 1), List.getElem?_eq_getElem within,
    List.drop_eq_getElem_cons within, ?_⟩
  rw [window, shift, List.drop_append_of_le_length (by omega)]

theorem mem_window_concat (x : α) (pos : 0 < w) : x ∈ window w (l ++ [x]) := by
  have within : (l ++ [x]).length - w ≤ l.length := by
    simp only [List.length_append, List.length_singleton]
    omega
  rw [window, List.drop_append_of_le_length within]
  exact List.mem_append_right _ (List.mem_singleton_self x)

end Window

end GravitySdk.Lib.Fibers

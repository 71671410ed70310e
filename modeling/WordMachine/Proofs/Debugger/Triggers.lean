import WordMachine.Debugger.Run

/-! Which trigger of a list fires. A list is searched from its beginning, so what is found is
the enabled trigger of the least index, and what was not found is nowhere in the list. -/

namespace WordMachine

namespace Breakpoint

structure Sits (list : List Breakpoint) (addr : UInt16) (index : Nat) (b : Breakpoint) : Prop where
  listed : list[index]? = some b
  enabled : b.enabled = true
  waits : b.trigger = .address addr

/-- The trigger of an index is enabled, and what it watches is not the same in two states. -/
structure Changes (list : List Breakpoint) (s s' : State) (index : Nat) (b : Breakpoint)
    (old new : UInt16) : Prop where
  listed : list[index]? = some b
  enabled : b.enabled = true
  before : b.trigger.value? s = some old
  after : b.trigger.value? s' = some new
  differs : old ≠ new

theorem Sits.unique {list : List Breakpoint} {addr : UInt16} {index index' : Nat} {b b' : Breakpoint}
    (sits : Sits list addr index b) (least : ∀ j < index, ∀ b, ¬Sits list addr j b)
    (sits' : Sits list addr index' b') (least' : ∀ j < index', ∀ b, ¬Sits list addr j b) :
    index = index' ∧ b = b' := by
  obtain below | rfl | above := Nat.lt_trichotomy index index'
  · exact absurd sits (least' index below b)
  · exact ⟨rfl, Option.some.inj (sits.listed.symm.trans sits'.listed)⟩
  · exact absurd sits' (least index' above b')

theorem Changes.unique {list : List Breakpoint} {s s' : State} {index index' : Nat}
    {b b' : Breakpoint} {old new old' new' : UInt16} (changes : Changes list s s' index b old new)
    (least : ∀ j < index, ∀ b old new, ¬Changes list s s' j b old new)
    (changes' : Changes list s s' index' b' old' new')
    (least' : ∀ j < index', ∀ b old new, ¬Changes list s s' j b old new) :
    index = index' ∧ b = b' ∧ old = old' ∧ new = new' := by
  obtain below | rfl | above := Nat.lt_trichotomy index index'
  · exact absurd changes (least' index below b old new)
  · obtain rfl := Option.some.inj (changes.listed.symm.trans changes'.listed)
    exact ⟨rfl, rfl, Option.some.inj (changes.before.symm.trans changes'.before),
      Option.some.inj (changes.after.symm.trans changes'.after)⟩
  · exact absurd changes' (least index' above b' old' new')

end Breakpoint

namespace Debugger.Plan

open Breakpoint

theorem addressBreak?_some {plan : Plan} {addr : UInt16} {index : Nat} {b : Breakpoint}
    (found : plan.addressBreak? addr = some (index, b)) :
    Sits plan.breakpoints addr index b ∧ ∀ j < index, ∀ b', ¬Sits plan.breakpoints addr j b' := by
  simp only [addressBreak?, Option.map_eq_some_iff, Prod.mk.injEq] at found
  obtain ⟨⟨b', index'⟩, found, rfl, rfl⟩ := found
  obtain ⟨fires, k, inside, entry, before⟩ := List.find?_eq_some_iff_getElem.mp found
  simp only [List.getElem_zipIdx, Nat.zero_add, Prod.mk.injEq] at entry
  obtain ⟨rfl, rfl⟩ := entry
  simp only [Bool.and_eq_true, decide_eq_true_eq] at fires
  constructor
  · rw [List.length_zipIdx] at inside
    exact ⟨List.getElem?_eq_getElem inside, fires.1, fires.2⟩
  · intro j below b' sits
    have quiet := before j below
    obtain ⟨bound, rfl⟩ := List.getElem?_eq_some_iff.mp sits.listed
    simp [sits.enabled, sits.waits] at quiet

theorem addressBreak?_none {plan : Plan} {addr : UInt16} (absent : plan.addressBreak? addr = none)
    (index : Nat) (b : Breakpoint) : ¬Sits plan.breakpoints addr index b := by
  intro sits
  simp only [addressBreak?, Option.map_eq_none_iff, List.find?_eq_none] at absent
  have entry : (b, index) ∈ plan.breakpoints.zipIdx := List.mk_mem_zipIdx_iff_getElem?.mpr sits.listed
  simpa [sits.enabled, sits.waits] using absent _ entry

def change? (s s' : State) (entry : Breakpoint × Nat) : Option Stop :=
  match entry.1.enabled, entry.1.trigger.value? s, entry.1.trigger.value? s' with
  | true, some old, some new => if old = new then none else some (.watch entry.2 entry.1 old new)
  | _, _, _ => none

theorem change?_eq_some_iff {s s' : State} {b : Breakpoint} {index : Nat} {stop : Stop} :
    change? s s' (b, index) = some stop ↔
      ∃ old new, b.enabled = true ∧ b.trigger.value? s = some old ∧ b.trigger.value? s' = some new ∧
        old ≠ new ∧ .watch index b old new = stop := by
  unfold change?
  cases b.enabled <;> cases b.trigger.value? s <;> cases b.trigger.value? s' <;> simp

theorem change?_of_changes {list : List Breakpoint} {s s' : State} {index : Nat} {b : Breakpoint}
    {old new : UInt16} (changes : Changes list s s' index b old new) :
    change? s s' (b, index) = some (.watch index b old new) :=
  change?_eq_some_iff.mpr
    ⟨old, new, changes.enabled, changes.before, changes.after, changes.differs, rfl⟩

theorem changed?_eq (plan : Plan) (s s' : State) :
    plan.changed? (plan.sample s) s' = plan.breakpoints.zipIdx.findSome? (change? s s') := by
  have paired : (plan.breakpoints.zip (plan.sample s)).zipIdx =
      plan.breakpoints.zipIdx.map fun entry =>
        ((entry.1, entry.1.trigger.value? s), entry.2) := by
    apply List.ext_getElem?
    intro k
    cases listed : plan.breakpoints[k]? with
    | none =>
      have past := List.getElem?_eq_none_iff.mp listed
      simp [sample, past]
    | some b => simp [sample, List.getElem?_zipIdx, List.getElem?_zip_eq_some, listed]
  rw [changed?, paired, List.findSome?_map]
  rfl

theorem changed?_some {plan : Plan} {s s' : State} {stop : Stop}
    (found : plan.changed? (plan.sample s) s' = some stop) :
    ∃ index b old new, stop = .watch index b old new ∧
      Changes plan.breakpoints s s' index b old new ∧
      ∀ j < index, ∀ b old new, ¬Changes plan.breakpoints s s' j b old new := by
  rw [changed?_eq, List.findSome?_eq_some_iff] at found
  obtain ⟨front, ⟨b, index⟩, back, split, fires, quiet⟩ := found
  obtain ⟨old, new, enabled, before, after, differs, rfl⟩ := change?_eq_some_iff.mp fires
  have entry : plan.breakpoints.zipIdx[front.length]? = some (b, index) := by
    rw [split, List.getElem?_append_right (Nat.le_refl _), Nat.sub_self, List.getElem?_cons_zero]
  simp only [List.getElem?_zipIdx, Nat.zero_add, Option.map_eq_some_iff, Prod.mk.injEq] at entry
  obtain ⟨_, listed, rfl, rfl⟩ := entry
  refine ⟨_, _, old, new, rfl, ⟨listed, enabled, before, after, differs⟩, ?_⟩
  intro j below b' old' new' changes
  have earlier : front[j]? = some (b', j) := by
    rw [← List.getElem?_append_left below, ← split, List.getElem?_zipIdx, changes.listed]
    simp
  have silent := quiet _ (List.mem_of_getElem? earlier)
  rw [change?_of_changes changes] at silent
  simp at silent

theorem changed?_none {plan : Plan} {s s' : State}
    (absent : plan.changed? (plan.sample s) s' = none) (index : Nat) (b : Breakpoint)
    (old new : UInt16) : ¬Changes plan.breakpoints s s' index b old new := by
  intro changes
  rw [changed?_eq, List.findSome?_eq_none_iff] at absent
  have entry : (b, index) ∈ plan.breakpoints.zipIdx :=
    List.mk_mem_zipIdx_iff_getElem?.mpr changes.listed
  have silent := absent _ entry
  rw [change?_of_changes changes] at silent
  simp at silent

end Debugger.Plan

end WordMachine

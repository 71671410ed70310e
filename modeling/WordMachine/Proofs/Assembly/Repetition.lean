import WordMachine.Assembly.Line

/-! How far the tokens of a source are read. A repetition comes to its limit with one token, and what
stands behind this token makes no difference; so the tokens up to it are the same for every way to go on. -/

namespace WordMachine.Assembly

namespace Tally

/-- The last of some tokens brings a repetition to its limit, and none before it does. -/
inductive Fills : Tally → List Token → Repetition → Prop
  | last {c : Tally} {t : Token} {r : Repetition} (full : (c.add t).full? = some r) : Fills c [t] r
  | more {c : Tally} {t : Token} {front : List Token} {r : Repetition} (open' : (c.add t).full? = none)
      (fills : Fills (c.add t) front r) : Fills c (t :: front) r

variable {c : Tally} {t : Token} {r r' : Repetition} {tokens front front' rest : List Token}

theorem overrun?_eq_some_iff :
    c.overrun? tokens = some (r, rest) ↔ ∃ front, tokens = front ++ rest ∧ c.Fills front r := by
  induction tokens generalizing c with
  | nil =>
    constructor
    · intro found
      simp [overrun?] at found
    · rintro ⟨front, split, fills⟩
      obtain ⟨rfl, -⟩ := List.append_eq_nil_iff.mp split.symm
      cases fills
  | cons t tokens ih =>
    rw [overrun?]
    cases full : (c.add t).full? with
    | some r' =>
      constructor
      · intro found
        obtain ⟨rfl, rfl⟩ := Prod.mk.inj (Option.some.inj found)
        exact ⟨[t], rfl, .last full⟩
      · rintro ⟨front, split, fills⟩
        cases fills with
        | last full' =>
          obtain ⟨rfl, rfl⟩ := List.cons_eq_cons.mp split
          exact congrArg (fun r => some (r, tokens)) (Option.some.inj (full.symm.trans full'))
        | more open' =>
          obtain ⟨rfl, -⟩ := List.cons_eq_cons.mp split
          simp [full] at open'
    | none =>
      refine ih.trans ⟨?_, ?_⟩
      · rintro ⟨front, rfl, fills⟩
        exact ⟨t :: front, rfl, .more full fills⟩
      · rintro ⟨front, split, fills⟩
        cases fills with
        | last full' =>
          obtain ⟨rfl, -⟩ := List.cons_eq_cons.mp split
          simp [full] at full'
        | more _ fills =>
          obtain ⟨rfl, rfl⟩ := List.cons_eq_cons.mp split
          exact ⟨_, rfl, fills⟩

theorem overrun?_eq_none_iff :
    c.overrun? tokens = none ↔ ∀ front r, front <+: tokens → ¬c.Fills front r := by
  rw [Option.eq_none_iff_forall_ne_some]
  constructor
  · rintro found front r ⟨rest, rfl⟩ fills
    exact found (r, rest) (overrun?_eq_some_iff.mpr ⟨front, rfl, fills⟩)
  · rintro unfilled ⟨r, rest⟩ found
    obtain ⟨front, rfl, fills⟩ := overrun?_eq_some_iff.mp found
    exact unfilled front r (List.prefix_append _ _) fills

theorem Fills.eq_of_prefix (fills : c.Fills front r) (fills' : c.Fills front' r') (before : front <+: front') :
    front = front' := by
  obtain ⟨rest, rfl⟩ := before
  have found : c.overrun? (front ++ rest) = some (r, rest) := overrun?_eq_some_iff.mpr ⟨front, rfl, fills⟩
  have whole : c.overrun? (front ++ rest) = some (r', []) :=
    overrun?_eq_some_iff.mpr ⟨front ++ rest, (List.append_nil _).symm, fills'⟩
  obtain ⟨-, rfl⟩ := Prod.mk.inj (Option.some.inj (found.symm.trans whole))
  rw [List.append_nil]

theorem Fills.ne_nil (fills : c.Fills front r) : front ≠ [] := by
  cases fills <;> simp

theorem Fills.getLast?_ne_comma (fills : c.Fills front r) (start : c.full? = none) :
    ∀ t ∈ front.getLast?, t.kind ≠ .comma := by
  induction fills with
  | @last c t r full =>
    intro u last comma
    obtain rfl : t = u := by simpa using last
    rw [add, comma] at full
    simp [start] at full
  | @more c t front r open' fills ih =>
    obtain ⟨u, others, rfl⟩ := List.exists_cons_of_ne_nil fills.ne_nil
    rw [List.getLast?_cons_cons]
    exact ih open'

theorem overrun?_cons : c.overrun? (t :: tokens) = none ↔
    (c.add t).full? = none ∧ (c.add t).overrun? tokens = none := by
  rw [overrun?]
  cases (c.add t).full? <;> simp

theorem full?_eq_none_iff : c.full? = none ↔
    c.lines ≠ repetitionLimit ∧ c.labels ≠ repetitionLimit ∧ c.words ≠ repetitionLimit + 2 := by
  unfold full?
  grind

theorem overrun?_of_length_lt (few : c.lines + c.labels + c.words + tokens.length < repetitionLimit) :
    c.overrun? tokens = none := by
  induction tokens generalizing c with
  | nil => rfl
  | cons t tokens ih =>
    have more : (c.add t).lines + (c.add t).labels + (c.add t).words ≤ c.lines + c.labels + c.words + 1 := by
      grind [add]
    rw [List.length_cons] at few
    have open' : (c.add t).full? = none := full?_eq_none_iff.mpr (by omega)
    exact overrun?_cons.mpr ⟨open', ih (by omega)⟩

end Tally

/-- Behind a repetition that has come to its limit nothing is read. -/
theorem Tally.Fills.parseTokens_eq {before after : List Token} {r : Repetition}
    (fills : Tally.Fills {} before r) : parseTokens (before ++ after) =
      match readLines (before ++ [closing]) with
      | .error e => .error e
      | .ok _ => .error ⟨.of (placeBetween before after) 1, .overrun r⟩ := by
  have found : Tally.overrun? {} (before ++ after) = some (r, after) :=
    Tally.overrun?_eq_some_iff.mpr ⟨before, rfl, fills⟩
  have taken : (before ++ after).take ((before ++ after).length - after.length) = before := by
    rw [List.length_append, Nat.add_sub_cancel, List.take_left]
  rw [parseTokens, found]
  cases read : readLines (before ++ [closing]) <;> simp only [taken, read]

theorem parseTokens_of_few {tokens : List Token} (few : tokens.length < repetitionLimit) :
    parseTokens tokens = readLines tokens := by
  rw [parseTokens, Tally.overrun?_of_length_lt (by simpa using few)]

end WordMachine.Assembly

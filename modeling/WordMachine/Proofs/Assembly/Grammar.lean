import WordMachine.Proofs.Assembly.Lexing
import WordMachine.Assembly.Assemble

/-! The lines of a source and the grammar they follow. What a line may go on with depends on the
place that its reader has come to, and from every place there is a way to the end of the line; so
the reader is stopped by the first token that no line can have there. -/

namespace WordMachine.Assembly

inductive Following : (tokens operands : List Token) → Prop
  | nil : Following [] []
  | next {o : Token} {tokens operands : List Token} (operand : o.isOperand = true)
      (more : Following tokens operands) : Following (o :: tokens) (o :: operands)
  | comma {c o : Token} {tokens operands : List Token} (comma : c.kind = .comma)
      (operand : o.isOperand = true) (more : Following tokens operands) :
      Following (c :: o :: tokens) (o :: operands)

inductive Operands : (tokens operands : List Token) → Prop
  | nil : Operands [] []
  | first {o : Token} {tokens operands : List Token} (operand : o.isOperand = true)
      (more : Following tokens operands) : Operands (o :: tokens) (o :: operands)

inductive Stated : List Token → Option Statement → Prop
  | nil : Stated [] none
  | head {t : Token} {tokens operands : List Token} (named : t.kind = .directive ∨ t.kind = .name)
      (more : Operands tokens operands) : Stated (t :: tokens) (some ⟨t, operands⟩)

inductive LineForm : List Token → Line → Prop
  | intro {labels rest : List Token} {statement : Option Statement} (all : ∀ t ∈ labels, t.kind = .label)
      (stated : Stated rest statement) :
      LineForm (labels ++ rest) ⟨((labels ++ rest).head?.map Token.position).getD {}, labels, statement⟩

/-- Lines, each ended by a newline. -/
inductive SourceForm : List Token → List Line → Prop
  | nil : SourceForm [] []
  | line {tokens more : List Token} {newline : Token} {l : Line} {lines : List Line}
      (form : LineForm tokens l) (ends : newline.kind = .newline) (rest : SourceForm more lines) :
      SourceForm (tokens ++ newline :: more) (l :: lines)

theorem isOperand_iff {t : Token} :
    t.isOperand = true ↔ t.kind = .number ∨ t.kind = .character ∨ t.kind = .string ∨ t.kind = .name := by
  simp [Token.isOperand, or_assoc]

section Complete

variable {tokens operands : List Token}

theorem Following.read (following : Following tokens operands) : Line.moreOperands tokens = .ok operands := by
  induction following with
  | nil => rfl
  | next operand more ih =>
    rw [Line.moreOperands.eq_def]
    simp [operand, ih, Except.map]
  | @comma c o tokens operands comma operand more ih =>
    have other : c.isOperand = false := by simp [Token.isOperand, comma]
    rw [Line.moreOperands.eq_def]
    simp [other, comma, operand, ih, Except.map]

theorem Operands.read (form : Operands tokens operands) : Line.readOperands tokens = .ok operands := by
  cases form with
  | nil => rfl
  | first operand more => simp [Line.readOperands, operand, more.read, Except.map]

theorem Stated.read {statement : Option Statement} (stated : Stated tokens statement) (labels : List Token) :
    Line.readStatement labels tokens = .ok statement := by
  cases stated with
  | nil => rfl
  | head named more => simp [Line.readStatement, named, more.read, Except.map]

theorem Stated.unlabelled {statement : Option Statement} (stated : Stated tokens statement) :
    ∀ t ∈ tokens.head?, t.kind ≠ .label := by
  cases stated with
  | nil => simp
  | head named more =>
    rintro t ⟨⟩
    obtain kind | kind := named <;> simp [kind]

theorem exists_labels (line : List Token) :
    ∃ labels rest, line = labels ++ rest ∧ (∀ t ∈ labels, t.kind = .label) ∧
      ∀ t ∈ rest.head?, t.kind ≠ .label := by
  induction line with
  | nil => exact ⟨[], [], rfl, by simp, by simp⟩
  | cons t line ih =>
    by_cases label : t.kind = .label
    · obtain ⟨labels, rest, rfl, all, unlabelled⟩ := ih
      exact ⟨t :: labels, rest, rfl, List.forall_mem_cons.mpr ⟨label, all⟩, unlabelled⟩
    · exact ⟨[], t :: line, rfl, by simp, by simpa using label⟩

theorem ofTokens_labels {labels rest : List Token} (all : ∀ t ∈ labels, t.kind = .label)
    (unlabelled : ∀ t ∈ rest.head?, t.kind ≠ .label) :
    Line.ofTokens (labels ++ rest) = (Line.readStatement labels rest).map fun statement =>
      ⟨((labels ++ rest).head?.map Token.position).getD {}, labels, statement⟩ := by
  have taken : ∀ t ∈ labels, decide (t.kind = .label) = true := by simpa using all
  have stops : rest.takeWhile (fun t => t.kind = .label) = [] ∧
      rest.dropWhile (fun t => t.kind = .label) = rest := by
    cases rest with
    | nil => exact ⟨rfl, rfl⟩
    | cons t rest =>
      have other : t.kind ≠ .label := unlabelled t rfl
      simp [other]
  simp only [Line.ofTokens, List.takeWhile_append_of_pos taken, List.dropWhile_append_of_pos taken,
    stops, List.append_nil]
  cases labels ++ rest <;> rfl

theorem LineForm.read {l : Line} (form : LineForm tokens l) : Line.ofTokens tokens = .ok l := by
  cases form with
  | @intro labels rest statement all stated =>
    rw [ofTokens_labels all stated.unlabelled, stated.read]
    rfl

end Complete

/-- How far a line has come: nothing of it, labels, a head, an operand, or a comma after one. -/
inductive Place where
  | start | labelled | headed | operand | comma
  deriving DecidableEq, Repr

namespace Place

def next? (place : Place) (t : Token) : Option Place :=
  match place with
  | start | labelled =>
    if t.kind = .label then some labelled
    else if t.kind = .directive ∨ t.kind = .name then some headed
    else if t.kind = .newline then some start
    else none
  | headed =>
    if t.isOperand then some operand else if t.kind = .newline then some start else none
  | operand =>
    if t.isOperand then some operand
    else if t.kind = .comma then some comma
    else if t.kind = .newline then some start
    else none
  | comma => if t.isOperand then some operand else none

def run? : Place → List Token → Option Place
  | place, [] => some place
  | place, t :: rest => (place.next? t).bind (run? · rest)

theorem run?_append (place : Place) (first second : List Token) :
    place.run? (first ++ second) = (place.run? first).bind (·.run? second) := by
  induction first generalizing place with
  | nil => rfl
  | cons t first ih =>
    rw [List.cons_append, run?, run?]
    cases place.next? t with
    | none => rfl
    | some after => exact ih after

variable {place after : Place} {t : Token}

theorem next?_start_iff (next : place.next? t = some after) : after = .start ↔ t.kind = .newline := by
  cases place <;> simp only [next?] at next <;> grind [Token.isOperand]

theorem next?_comma_iff (next : place.next? t = some after) : after = .comma ↔ t.kind = .comma := by
  cases place <;> simp only [next?] at next <;> grind [Token.isOperand]

theorem run?_last {tokens : List Token} (ran : run? .start tokens = some place) :
    (place = .comma ↔ ∃ t ∈ tokens.getLast?, t.kind = .comma) ∧
      (place = .start ↔ ∀ t ∈ tokens.getLast?, t.kind = .newline) := by
  obtain rfl | ⟨front, t, rfl⟩ := tokens.eq_nil_or_concat
  · obtain rfl := Option.some.inj ran
    simp
  · rw [List.concat_eq_append, run?_append] at ran
    obtain ⟨before, -, last⟩ := Option.bind_eq_some_iff.mp ran
    obtain ⟨stop, next, same⟩ := Option.bind_eq_some_iff.mp last
    obtain rfl := Option.some.inj same
    simp [next?_start_iff next, next?_comma_iff next]

end Place

section Runs

open Place

variable {tokens operands : List Token}

theorem Following.run (following : Following tokens operands) : run? .operand tokens = some .operand := by
  induction following with
  | nil => rfl
  | next operand more ih => simp [run?, next?, operand, ih]
  | @comma c o tokens operands comma operand more ih =>
    have other : c.isOperand = false := by simp [Token.isOperand, comma]
    simp [run?, next?, other, comma, operand, ih]

theorem Operands.run (form : Operands tokens operands) {newline : Token} (ends : newline.kind = .newline) :
    run? .headed (tokens ++ [newline]) = some .start := by
  have other : newline.isOperand = false := by simp [Token.isOperand, ends]
  cases form with
  | nil => simp [run?, next?, other, ends]
  | first operand more =>
    rw [List.cons_append, run?, next?, if_pos operand, Option.bind_some, run?_append, more.run]
    simp [run?, next?, other, ends]

theorem run?_labels {labels : List Token} (all : ∀ t ∈ labels, t.kind = .label) :
    run? .start labels = some (if labels.isEmpty then .start else .labelled) := by
  have on : ∀ labels : List Token, (∀ t ∈ labels, t.kind = .label) → run? .labelled labels = some .labelled := by
    intro labels all
    induction labels with
    | nil => rfl
    | cons t labels ih =>
      have first : t.kind = .label := all t List.mem_cons_self
      simp [run?, next?, first, ih fun u mem => all u (List.mem_cons_of_mem _ mem)]
  cases labels with
  | nil => rfl
  | cons t labels =>
    have first : t.kind = .label := all t List.mem_cons_self
    simp [run?, next?, first, on labels fun u mem => all u (List.mem_cons_of_mem _ mem)]

theorem LineForm.run {l : Line} (form : LineForm tokens l) {newline : Token} (ends : newline.kind = .newline) :
    run? .start (tokens ++ [newline]) = some .start := by
  cases form with
  | @intro labels rest statement all stated =>
    rw [List.append_assoc, run?_append, run?_labels all, Option.bind_some]
    cases stated with
    | nil => split <;> simp [run?, next?, ends]
    | @head t tokens operands named more =>
      have other : t.kind ≠ .label := by
        obtain kind | kind := named <;> simp [kind]
      split <;> simp [run?, next?, other, named, more.run ends]

theorem SourceForm.run {lines : List Line} (form : SourceForm tokens lines) :
    run? .start tokens = some .start := by
  induction form with
  | nil => rfl
  | @line tokens more newline l lines form ends rest ih =>
    rw [List.append_cons, run?_append, form.run ends]
    exact ih

end Runs

open Place Line

/-- A reader that cannot go on, and what it says: the token at fault is the first that no line can
have, or the comma in front of it. -/
inductive Halts : Place → List Token → Error → Prop
  | here {place : Place} {t : Token} {rest : List Token} (uncommaed : place ≠ .comma)
      (stuck : place.next? t = none) : Halts place (t :: rest) (unexpected t (place ≠ .start))
  | dangling {c t : Token} {rest : List Token} (comma : c.kind = .comma) (other : t.isOperand = false) :
      Halts .operand (c :: t :: rest) (unexpected c true)
  | later {place after : Place} {t : Token} {rest : List Token} {e : Error}
      (next : place.next? t = some after) (halts : Halts after rest e) : Halts place (t :: rest) e

def Settled {α : Type} (result : Except Error α) (derived : α → Prop) (place : Place) (tokens : List Token) :
    Prop :=
  (∃ a, result = .ok a ∧ derived a) ∨ ∃ e, result = .error e ∧ Halts place tokens e

theorem Halts.append {place after : Place} {first rest : List Token} {e : Error}
    (ran : place.run? first = some after) (halts : Halts after rest e) : Halts place (first ++ rest) e := by
  induction first generalizing place with
  | nil =>
    obtain rfl := Option.some.inj ran
    exact halts
  | cons t first ih =>
    obtain ⟨middle, next, ran⟩ := Option.bind_eq_some_iff.mp ran
    exact .later next (ih ran)

theorem Halts.run_none {place : Place} {tokens : List Token} {e : Error} (halts : Halts place tokens e) :
    place.run? tokens = none := by
  induction halts with
  | here uncommaed stuck => simp [Place.run?, stuck]
  | @dangling c t rest comma other =>
    have operand : c.isOperand = false := by simp [Token.isOperand, comma]
    simp [Place.run?, next?, operand, comma, other]
  | later next halts ih => simp [Place.run?, next, ih]

theorem Settled.append {α β : Type} {result : Except Error α} {derived : α → Prop} {derived' : β → Prop}
    {f : α → β} {place after : Place} {first rest : List Token} (settled : Settled result derived after rest)
    (ran : place.run? first = some after) (built : ∀ a, derived a → derived' (f a)) :
    Settled (result.map f) derived' place (first ++ rest) := by
  obtain ⟨a, rfl, form⟩ | ⟨e, rfl, halts⟩ := settled
  · exact .inl ⟨f a, rfl, built a form⟩
  · exact .inr ⟨e, rfl, halts.append ran⟩

section Settles

variable {line after : List Token} {newline : Token}

theorem moreOperands_settled (inside : ∀ t ∈ line, t.kind ≠ .newline) (ends : newline.kind = .newline) :
    Settled (moreOperands line) (Following line) .operand (line ++ newline :: after) := by
  fun_induction moreOperands line with
  | case1 => exact .inl ⟨[], rfl, .nil⟩
  | case2 t rest operand ih =>
    have ran : Place.operand.run? [t] = some .operand := by simp [Place.run?, next?, operand]
    have settled := ih fun u mem => inside u (List.mem_cons_of_mem _ mem)
    exact settled.append ran fun _ more => .next operand more
  | case3 t other comma u rest operand ih =>
    have ran : Place.operand.run? [t, u] = some .operand := by simp [Place.run?, next?, other, comma, operand]
    have settled := ih fun v mem => inside v (List.mem_cons_of_mem _ (List.mem_cons_of_mem _ mem))
    exact settled.append ran fun _ more => .comma comma operand more
  | case4 t other comma u rest last => exact .inr ⟨_, rfl, .dangling comma (by simpa using last)⟩
  | case5 t other comma =>
    exact .inr ⟨_, rfl, .dangling comma (by simp [Token.isOperand, ends])⟩
  | case6 t rest other uncommaed =>
    have stuck : Place.operand.next? t = none := by
      simp [next?, other, uncommaed, inside t List.mem_cons_self]
    exact .inr ⟨_, rfl, .here (by decide) stuck⟩

theorem readOperands_settled (inside : ∀ t ∈ line, t.kind ≠ .newline) (ends : newline.kind = .newline) :
    Settled (readOperands line) (Operands line) .headed (line ++ newline :: after) := by
  cases line with
  | nil => exact .inl ⟨[], rfl, .nil⟩
  | cons t rest =>
    rw [readOperands]
    split
    · next operand =>
      have ran : Place.headed.run? [t] = some .operand := by simp [Place.run?, next?, operand]
      have inside' : ∀ u ∈ rest, u.kind ≠ .newline := fun u mem => inside u (List.mem_cons_of_mem _ mem)
      exact (moreOperands_settled inside' ends).append ran fun _ more => .first operand more
    · next other =>
      have stuck : Place.headed.next? t = none := by simp [next?, other, inside t List.mem_cons_self]
      exact .inr ⟨_, rfl, .here (by decide) stuck⟩

theorem readStatement_settled (labels : List Token) (unlabelled : ∀ t ∈ line.head?, t.kind ≠ .label)
    (inside : ∀ t ∈ line, t.kind ≠ .newline) (ends : newline.kind = .newline) :
    Settled (readStatement labels line) (Stated line) (if labels.isEmpty then .start else .labelled)
      (line ++ newline :: after) := by
  cases line with
  | nil => exact .inl ⟨none, rfl, .nil⟩
  | cons t rest =>
    have other : t.kind ≠ .label := unlabelled t rfl
    rw [readStatement]
    split
    · next named =>
      have named' : t.kind = .directive ∨ t.kind = .name := by simpa using named
      have ran : (if labels.isEmpty then Place.start else .labelled).run? [t] = some .headed := by
        split <;> simp [Place.run?, next?, other, named']
      have inside' : ∀ u ∈ rest, u.kind ≠ .newline := fun u mem => inside u (List.mem_cons_of_mem _ mem)
      exact (readOperands_settled inside' ends).append ran fun _ more => .head named' more
    · next unnamed =>
      have unnamed' : ¬(t.kind = .directive ∨ t.kind = .name) := by simpa using unnamed
      have line := inside t List.mem_cons_self
      have stuck : (if labels.isEmpty then Place.start else .labelled).next? t = none := by
        split <;> simp [next?, other, unnamed', line]
      have said : (!labels.isEmpty) = decide ((if labels.isEmpty then Place.start else .labelled) ≠ .start) := by
        cases labels <;> rfl
      rw [said]
      exact .inr ⟨_, rfl, .here (by split <;> decide) stuck⟩

theorem ofTokens_settled (inside : ∀ t ∈ line, t.kind ≠ .newline) (ends : newline.kind = .newline) :
    Settled (ofTokens line) (LineForm line) .start (line ++ newline :: after) := by
  obtain ⟨labels, rest, rfl, all, unlabelled⟩ := exists_labels line
  have inside' : ∀ t ∈ rest, t.kind ≠ .newline := fun t mem => inside t (List.mem_append_right _ mem)
  rw [ofTokens_labels all unlabelled, List.append_assoc]
  exact (readStatement_settled labels unlabelled inside' ends).append (run?_labels all)
    fun _ stated => .intro all stated

end Settles

def Ended (tokens : List Token) : Prop := ∀ t ∈ tokens.getLast?, t.kind = .newline

theorem exists_line {tokens : List Token} (ended : Ended tokens) (filled : tokens ≠ []) :
    ∃ line newline more, tokens = line ++ newline :: more ∧ (∀ t ∈ line, t.kind ≠ .newline) ∧
      newline.kind = .newline ∧ Ended more := by
  induction tokens with
  | nil => exact absurd rfl filled
  | cons t tokens ih =>
    cases tokens with
    | nil => exact ⟨[], t, [], rfl, by simp, ended t rfl, by simp [Ended]⟩
    | cons u tokens =>
      have ended' : Ended (u :: tokens) := by simpa [Ended, List.getLast?_cons_cons] using ended
      by_cases ends : t.kind = .newline
      · exact ⟨[], t, u :: tokens, rfl, by simp, ends, ended'⟩
      · obtain ⟨line, newline, more, same, inside, ends', rest⟩ := ih ended' (by simp)
        exact ⟨t :: line, newline, more, by rw [same]; rfl, List.forall_mem_cons.mpr ⟨ends, inside⟩, ends', rest⟩

theorem source_settled {tokens : List Token} (ended : Ended tokens) :
    Settled (readLines tokens) (SourceForm tokens) .start tokens := by
  unfold readLines
  induction size : tokens.length using Nat.strongRecOn generalizing tokens with
  | _ n shorter =>
    by_cases empty : tokens = []
    · subst empty
      exact .inl ⟨[], rfl, .nil⟩
    · obtain ⟨line, newline, more, rfl, inside, ends, ended'⟩ := exists_line ended empty
      have less : more.length < n := by
        rw [← size, List.length_append, List.length_cons]
        omega
      have settled : Settled (ofTokens line) (LineForm line) .start (line ++ newline :: more) :=
        ofTokens_settled inside ends
      rw [splitLines_line inside ends, List.mapM_cons]
      obtain ⟨l, read, form⟩ | ⟨e, read, halts⟩ := settled
      · obtain ⟨lines, read', forms⟩ | ⟨e, read', halts⟩ := shorter more.length less ended' rfl
        · exact .inl ⟨l :: lines, by rw [read, read']; rfl, .line form ends forms⟩
        · refine .inr ⟨e, by rw [read, read']; rfl, ?_⟩
          rw [List.append_cons]
          exact halts.append (form.run ends)
      · exact .inr ⟨e, by rw [read]; rfl, halts⟩

def Viable (tokens : List Token) : Prop := ∃ more lines, SourceForm (tokens ++ more) lines

/-- From every place there is a way to the end of the line. -/
theorem exists_close (place : Place) : ∃ close, Ended close ∧ close ≠ [] ∧ place.run? close = some .start := by
  let newline : Token := ⟨.newline, [Bytes.newline], {}⟩
  cases place with
  | comma => exact ⟨[⟨.name, [], {}⟩, newline], by simp [Ended, newline], by simp, by decide⟩
  | start | labelled | headed | operand =>
    exact ⟨[newline], by simp [Ended, newline], by simp, by decide⟩

theorem viable_iff {tokens : List Token} : Viable tokens ↔ (run? .start tokens).isSome := by
  constructor
  · rintro ⟨more, lines, form⟩
    have ran := form.run
    rw [run?_append] at ran
    obtain ⟨place, first, -⟩ := Option.bind_eq_some_iff.mp ran
    simp [first]
  · intro ran
    obtain ⟨place, first⟩ := Option.isSome_iff_exists.mp ran
    obtain ⟨close, ended, filled, closes⟩ := exists_close place
    have ended' : Ended (tokens ++ close) := by
      intro t last
      rw [List.getLast?_append, Option.or_of_isSome (by simpa using filled)] at last
      exact ended t last
    obtain ⟨lines, -, form⟩ | ⟨e, -, halts⟩ := source_settled ended'
    · exact ⟨close, lines, form⟩
    · have ran' := halts.run_none
      rw [run?_append, first, Option.bind_some, closes] at ran'
      exact absurd ran' (by simp)

/-- The token that is held against a source: the one that no line can have after the tokens
`before` it, unless these end with a comma. -/
def blamed (before : List Token) (t : Token) : Token :=
  match before.getLast? with
  | some c => if c.kind = .comma then c else t
  | none => t

def midLine (before : List Token) : Bool := before.getLast?.any (·.kind ≠ .newline)

theorem blamed_eq {prior : List Token} {place : Place} (ran : run? .start prior = some place)
    (uncommaed : place ≠ .comma) (t : Token) : blamed prior t = t := by
  unfold blamed
  split
  · next c last => exact if_neg fun comma => uncommaed ((run?_last ran).1.mpr ⟨c, last, comma⟩)
  · rfl

theorem midLine_eq {prior : List Token} {place : Place} (ran : run? .start prior = some place) :
    midLine prior = decide (place ≠ .start) := by
  rw [midLine, Bool.eq_iff_iff, decide_eq_true_eq, Ne, (run?_last ran).2]
  cases prior.getLast? <;> simp

/-- A reader is stopped by the first token that no line can have. -/
theorem Halts.blames {place : Place} {tokens : List Token} {e : Error} (halts : Halts place tokens e)
    {prior : List Token} (ran : Place.start.run? prior = some place) :
    ∃ before t after, prior ++ tokens = before ++ t :: after ∧ Viable before ∧ ¬Viable (before ++ [t]) ∧
      e = unexpected (blamed before t) (midLine before) := by
  have stops : ∀ {place : Place} {prior : List Token} {t : Token}, Place.start.run? prior = some place →
      place.next? t = none → Viable prior ∧ ¬Viable (prior ++ [t]) := by
    intro place prior t ran stuck
    rw [viable_iff, viable_iff, run?_append, ran]
    simp [run?, stuck]
  -- `prior` is what has been read before, from the start of the source
  induction halts generalizing prior with
  | @here place t rest uncommaed stuck =>
    refine ⟨prior, t, rest, rfl, (stops ran stuck).1, (stops ran stuck).2, ?_⟩
    rw [blamed_eq ran uncommaed, midLine_eq ran]
  | @dangling c t rest comma other =>
    have operand : c.isOperand = false := by simp [Token.isOperand, comma]
    have ran' : Place.start.run? (prior ++ [c]) = some .comma := by
      rw [run?_append, ran]
      simp [run?, next?, operand, comma]
    have stuck : Place.comma.next? t = none := by simp [next?, other]
    refine ⟨prior ++ [c], t, rest, by simp, (stops ran' stuck).1, (stops ran' stuck).2, ?_⟩
    simp [blamed, midLine, comma]
  | @later place after t rest e next halts ih =>
    have ran' : Place.start.run? (prior ++ [t]) = some after := by
      rw [run?_append, ran]
      simp [run?, next]
    obtain ⟨before, u, behind, same, stopped⟩ := ih ran'
    exact ⟨before, u, behind, by rw [← same, List.append_assoc]; rfl, stopped⟩

def Line.tokens (l : Line) : List Token :=
  l.labels ++ l.statement.toList.flatMap fun s => s.head :: s.operands

def Token.isPlaced (t : Token) : Bool := t.kind ≠ .comma && t.kind ≠ .newline

theorem isPlaced_of_isOperand {t : Token} (operand : t.isOperand = true) : t.isPlaced = true := by
  rw [isOperand_iff] at operand
  obtain kind | kind | kind | kind := operand <;> simp [Token.isPlaced, kind]

section Placed

variable {tokens operands : List Token}

theorem Following.placed (following : Following tokens operands) :
    tokens.filter Token.isPlaced = operands ∧ ∀ t ∈ tokens, t.kind ≠ .newline := by
  induction following with
  | nil => simp
  | next operand more ih =>
    have placed := isPlaced_of_isOperand operand
    refine ⟨by rw [List.filter_cons_of_pos placed, ih.1], List.forall_mem_cons.mpr ⟨?_, ih.2⟩⟩
    simp_all [Token.isPlaced]
  | @comma c o tokens operands comma operand more ih =>
    have placed := isPlaced_of_isOperand operand
    have unplaced : c.isPlaced = false := by simp [Token.isPlaced, comma]
    refine ⟨?_, List.forall_mem_cons.mpr ⟨by simp [comma], List.forall_mem_cons.mpr ⟨?_, ih.2⟩⟩⟩
    · rw [List.filter_cons_of_neg (by simp [unplaced]), List.filter_cons_of_pos placed, ih.1]
    · simp_all [Token.isPlaced]

theorem Operands.placed (form : Operands tokens operands) :
    tokens.filter Token.isPlaced = operands ∧ ∀ t ∈ tokens, t.kind ≠ .newline := by
  cases form with
  | nil => simp
  | first operand more =>
    exact (Following.next operand more).placed

theorem LineForm.placed {l : Line} (form : LineForm tokens l) :
    tokens.filter Token.isPlaced = l.tokens ∧ ∀ t ∈ tokens, t.kind ≠ .newline := by
  cases form with
  | @intro labels rest statement all stated =>
    have labels' : labels.filter Token.isPlaced = labels := by
      rw [List.filter_eq_self]
      intro t mem
      simp [Token.isPlaced, all t mem]
    have rest' : rest.filter Token.isPlaced = statement.toList.flatMap (fun s => s.head :: s.operands) ∧
        ∀ t ∈ rest, t.kind ≠ .newline := by
      cases stated with
      | nil => simp
      | @head t tokens operands named more =>
        have placed : t.isPlaced = true := by
          obtain kind | kind := named <;> simp [Token.isPlaced, kind]
        refine ⟨?_, List.forall_mem_cons.mpr ⟨?_, more.placed.2⟩⟩
        · rw [List.filter_cons_of_pos placed, more.placed.1]
          simp
        · simp_all [Token.isPlaced]
    refine ⟨by rw [List.filter_append, labels', rest'.1]; rfl, ?_⟩
    intro t mem
    obtain mem | mem := List.mem_append.mp mem
    · simp [all t mem]
    · exact rest'.2 t mem

theorem SourceForm.placed {lines : List Line} (form : SourceForm tokens lines) :
    lines.flatMap Line.tokens = tokens.filter Token.isPlaced ∧
      lines.length = tokens.countP (·.kind = .newline) := by
  induction form with
  | nil => simp
  | @line tokens more newline l lines form ends rest ih =>
    obtain ⟨placed, inside⟩ := form.placed
    have unplaced : newline.isPlaced = false := by simp [Token.isPlaced, ends]
    have none' : tokens.countP (·.kind = .newline) = 0 := by simpa [List.countP_eq_zero] using inside
    constructor
    · rw [List.flatMap_cons, ih.1, List.filter_append, placed, List.filter_cons_of_neg (by simp [unplaced])]
    · rw [List.length_cons, ih.2, List.countP_append, none', List.countP_cons_of_pos (by simpa using ends),
        Nat.zero_add]

theorem SourceForm.labels {lines : List Line} (form : SourceForm tokens lines) :
    ∀ l ∈ lines, ∀ t ∈ l.labels, t ∈ tokens ∧ t.kind = .label := by
  induction form with
  | nil => simp
  | @line tokens more newline l lines form ends rest ih =>
    intro l' mem t label
    obtain rfl | mem := List.mem_cons.mp mem
    · cases form with
      | intro all stated => exact ⟨by simp [label], all t label⟩
    · exact ⟨by simp [(ih l' mem t label).1], (ih l' mem t label).2⟩

end Placed

theorem SourceForm.read {tokens : List Token} {lines : List Line} (form : SourceForm tokens lines) :
    readLines tokens = .ok lines := by
  unfold readLines
  induction form with
  | nil => rfl
  | line form ends rest ih =>
    rw [splitLines_line form.placed.2 ends, List.mapM_cons, form.read, ih]
    rfl

end WordMachine.Assembly

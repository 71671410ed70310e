import WordMachine.Proofs.Assembly.Emission
import Mathlib.Data.List.Nodup

/-! What a draft without errors holds. Its cells, its fixups and its labels are those of the
lines drafted so far, laid out from the address where it began. Fixups come after everything
else, and the last one for a cell decides. -/

namespace WordMachine.Assembly

def numbered (base : Nat) : List Piece → List (Nat × Piece)
  | [] => []
  | p :: more => (base, p) :: numbered (base + 1) more

theorem numbered_append (base : Nat) (pieces more : List Piece) :
    numbered base (pieces ++ more) = numbered base pieces ++ numbered (base + pieces.length) more := by
  induction pieces generalizing base with
  | nil => rfl
  | cons p pieces ih =>
    rw [List.cons_append, numbered, ih, numbered, List.length_cons, List.cons_append,
      Nat.add_right_comm, Nat.add_assoc]

theorem map_fst_numbered (base : Nat) (pieces : List Piece) :
    (numbered base pieces).map Prod.fst = List.range' base pieces.length := by
  induction pieces generalizing base with
  | nil => rfl
  | cons p pieces ih => rw [numbered, List.map_cons, ih, List.length_cons, List.range'_succ]

theorem map_snd_numbered (base : Nat) (pieces : List Piece) :
    (numbered base pieces).map Prod.snd = pieces := by
  induction pieces generalizing base with
  | nil => rfl
  | cons p pieces ih => rw [numbered, List.map_cons, ih]

theorem mem_numbered {base k : Nat} {pieces : List Piece} {p : Piece} (listed : pieces[k]? = some p) :
    (base + k, p) ∈ numbered base pieces := by
  induction pieces generalizing base k with
  | nil => simp at listed
  | cons q pieces ih =>
    cases k with
    | zero =>
      obtain rfl : q = p := by simpa using listed
      exact List.mem_cons_self
    | succ k =>
      have later : (base + 1 + k, p) ∈ numbered (base + 1) pieces := ih (by simpa using listed)
      rw [Nat.add_right_comm] at later
      exact List.mem_cons_of_mem _ later

def extent (laid : List (Nat × Piece)) : Nat := laid.foldr (fun e n => max n (e.1 + 1)) 0

theorem lt_extent {laid : List (Nat × Piece)} {e : Nat × Piece} (mem : e ∈ laid) : e.1 < extent laid := by
  induction laid with
  | nil => simp at mem
  | cons first more ih =>
    rw [extent, List.foldr_cons]
    obtain rfl | later := List.mem_cons.mp mem
    · omega
    · have below := ih later
      rw [extent] at below
      omega

theorem extent_mem (laid : List (Nat × Piece)) :
    extent laid = 0 ∨ ∃ e ∈ laid, extent laid = e.1 + 1 := by
  induction laid with
  | nil => exact .inl rfl
  | cons first more ih =>
    rw [extent, List.foldr_cons]
    obtain higher | lower := Nat.le_total (first.1 + 1) (extent more)
    · rw [extent] at higher ih
      rw [Nat.max_eq_left higher]
      obtain zero | ⟨e, mem, same⟩ := ih
      · exact .inl zero
      · exact .inr ⟨e, List.mem_cons_of_mem _ mem, same⟩
    · rw [extent] at lower
      rw [Nat.max_eq_right lower]
      exact .inr ⟨first, List.mem_cons_self, rfl⟩

theorem lookup_eq_some_iff_mem {α β : Type} [BEq α] [LawfulBEq α] {list : List (α × β)}
    (distinct : (list.map Prod.fst).Nodup) {a : α} {b : β} : list.lookup a = some b ↔ (a, b) ∈ list := by
  induction list with
  | nil => simp
  | cons e list ih =>
    obtain ⟨fresh, rest⟩ := List.nodup_cons.mp distinct
    rw [List.lookup_cons, List.mem_cons]
    by_cases same : a = e.1
    · subst same
      have missing : (e.1, b) ∉ list := fun mem => fresh (List.mem_map.mpr ⟨_, mem, rfl⟩)
      simp [missing, Prod.ext_iff, eq_comm]
    · have other : (a == e.1) = false := by simpa using same
      simp [other, ih rest, Prod.ext_iff, same]

theorem lookup_eq_none_of_fresh {α β : Type} [BEq α] [LawfulBEq α] {list : List (α × β)} {a : α}
    (fresh : a ∉ list.map Prod.fst) : list.lookup a = none := by
  rw [List.lookup_eq_none_iff]
  intro e mem
  simpa using fun same : a = e.1 => fresh (List.mem_map.mpr ⟨e, mem, same.symm⟩)

theorem lookup_reverse {α β : Type} [BEq α] [LawfulBEq α] {list : List (α × β)}
    (distinct : (list.map Prod.fst).Nodup) (a : α) : list.reverse.lookup a = list.lookup a := by
  have reversed : (list.reverse.map Prod.fst).Nodup := by
    rw [List.map_reverse]
    exact List.nodup_reverse.mpr distinct
  ext b
  rw [lookup_eq_some_iff_mem reversed, lookup_eq_some_iff_mem distinct, List.mem_reverse]

def goesTo (k : Nat) (e : Nat × Piece) : Bool := e.1 = k

theorem lookup_eq_find? (laid : List (Nat × Piece)) (k : Nat) :
    laid.lookup k = (laid.find? (goesTo k)).map Prod.snd := by
  induction laid with
  | nil => rfl
  | cons e laid ih =>
    rw [List.lookup_cons, List.find?_cons, ih]
    by_cases same : e.1 = k
    · simp [goesTo, same]
    · have other : (k == e.1) = false := by simpa using Ne.symm same
      simp [goesTo, same, other]

/-- The piece that decides what a cell holds in the end. Of those that went there, the latest
first, it is the first that refers to a label, and else the first of all. -/
def decided? (laid : List (Nat × Piece)) (k : Nat) : Option Piece :=
  ((laid.find? fun e => goesTo k e && e.2.isReference).or (laid.find? (goesTo k))).map Prod.snd

section Decided

variable {laid : List (Nat × Piece)} {k : Nat} {p : Piece}

theorem decided?_cases (decides : decided? laid k = some p) :
    ((laid.find? fun e => goesTo k e && e.2.isReference) = some (k, p) ∧ p.isReference = true) ∨
      ((laid.find? fun e => goesTo k e && e.2.isReference) = none ∧ laid.find? (goesTo k) = some (k, p) ∧
        p.isReference = false) := by
  obtain ⟨⟨addr, q⟩, first, rfl⟩ := Option.map_eq_some_iff.mp decides
  obtain found | ⟨missing, found⟩ := Option.or_eq_some_iff.mp first
  · have here := List.find?_some found
    simp only [goesTo, Bool.and_eq_true, decide_eq_true_eq] at here
    obtain ⟨rfl, waits⟩ := here
    exact .inl ⟨found, waits⟩
  · have here := List.find?_some found
    simp only [goesTo, decide_eq_true_eq] at here
    subst here
    have plain := List.find?_eq_none.mp missing _ (List.mem_of_find?_eq_some found)
    exact .inr ⟨missing, found, by simpa [goesTo] using plain⟩

theorem decided?_mem (decides : decided? laid k = some p) : (k, p) ∈ laid := by
  obtain ⟨found, -⟩ | ⟨-, found, -⟩ := decided?_cases decides
  · exact List.mem_of_find?_eq_some found
  · exact List.mem_of_find?_eq_some found

theorem find?_reference {t : Token} (decides : decided? laid k = some (.reference t)) :
    (laid.find? fun e => goesTo k e && e.2.isReference) = some (k, .reference t) := by
  obtain ⟨found, -⟩ | ⟨-, -, plain⟩ := decided?_cases decides
  · exact found
  · simp [Piece.isReference] at plain

theorem find?_word {value : UInt16} {cursor : Cursor} (decides : decided? laid k = some (.word value cursor)) :
    (laid.find? fun e => goesTo k e && e.2.isReference) = none ∧
      laid.find? (goesTo k) = some (k, .word value cursor) := by
  obtain ⟨-, waits⟩ | ⟨missing, found, -⟩ := decided?_cases decides
  · simp [Piece.isReference] at waits
  · exact ⟨missing, found⟩

theorem decided?_of_once (once : (laid.map Prod.fst).Nodup) (mem : (k, p) ∈ laid) :
    decided? laid k = some p := by
  have only : ∀ e ∈ laid, goesTo k e = true → e = (k, p) := by
    rintro ⟨addr, q⟩ found here
    obtain rfl : addr = k := by simpa [goesTo] using here
    have first := (lookup_eq_some_iff_mem once).mpr mem
    have second := (lookup_eq_some_iff_mem once).mpr found
    rw [first] at second
    rw [Option.some.inj second]
  have there : ∃ e, laid.find? (goesTo k) = some e := by
    rw [← Option.isSome_iff_exists, List.find?_isSome]
    exact ⟨_, mem, by simp [goesTo]⟩
  obtain ⟨e, found⟩ := there
  have same := only e (List.mem_of_find?_eq_some found) (List.find?_some found)
  cases waits : laid.find? fun e => goesTo k e && e.2.isReference with
  | none => simp [decided?, waits, found, same]
  | some f =>
    have here := List.find?_some waits
    rw [Bool.and_eq_true] at here
    have same := only f (List.mem_of_find?_eq_some waits) here.1
    simp [decided?, waits, same]

end Decided

def fixup? : Nat × Piece → Option Fixup
  | (addr, .reference t) => some ⟨addr, t.text, .ofToken t⟩
  | (_, .word _ _) => none

namespace Draft

/-- A draft without errors, and what has been put into it, the latest first. -/
structure Tracks (d : Draft) (laid : List (Nat × Piece)) (names : List (Bytes × Nat)) : Prop where
  clean : d.errors = []
  room : d.full = false
  bounded : d.addr ≤ memorySize
  memory : ∀ k, k < memorySize → d.memory[k]? = some (((laid.lookup k).map Piece.provisional).getD 0)
  size : d.size = extent laid
  fixups : d.fixups = laid.filterMap fixup?
  labels : d.labels = names.map fun (name, addr) => (name, addr.toUInt16)
  within : ∀ e ∈ laid, e.1 < memorySize
  located : ∀ e ∈ names, e.2 < memorySize
  distinct : (names.map Prod.fst).Nodup

theorem tracks_empty (table : Option SymbolTable) : Tracks { table } [] [] where
  clean := rfl
  room := rfl
  bounded := Nat.zero_le _
  memory k inside := by simp [inside]
  size := rfl
  fixups := rfl
  labels := rfl
  within := by simp
  located := by simp
  distinct := by simp

section Tracks

variable {d : Draft} {laid : List (Nat × Piece)} {names : List (Bytes × Nat)}

theorem emit_eq (inside : d.addr < memorySize) (value : UInt16) (cursor : Cursor) :
    d.emit value cursor =
      { d with
        memory := d.memory.setIfInBounds d.addr value
        addr := d.addr + 1
        size := max d.size (d.addr + 1) } := by
  rw [emit, if_pos inside]

theorem place_tracks (tracks : d.Tracks laid names) (inside : d.addr < memorySize) (p : Piece) :
    (d.place p).Tracks ((d.addr, p) :: laid) names ∧ (d.place p).addr = d.addr + 1 := by
  have memory : ∀ k, k < memorySize →
      (d.memory.setIfInBounds d.addr p.provisional)[k]? =
        some (((((d.addr, p) :: laid).lookup k).map Piece.provisional).getD 0) := by
    intro k bound
    rw [Vector.getElem?_setIfInBounds, List.lookup_cons]
    by_cases same : d.addr = k
    · subst same
      simp [inside]
    · have other : (k == d.addr) = false := by simpa using Ne.symm same
      rw [if_neg same, tracks.memory k bound, other]
  have size : max d.size (d.addr + 1) = extent ((d.addr, p) :: laid) := by
    rw [tracks.size]
    rfl
  have within : ∀ e ∈ (d.addr, p) :: laid, e.1 < memorySize := by
    simpa using ⟨inside, fun a b => tracks.within (a, b)⟩
  cases p with
  | word value cursor =>
    rw [place, emit_eq inside]
    exact ⟨⟨tracks.clean, tracks.room, inside, memory, size, tracks.fixups, tracks.labels, within,
      tracks.located, tracks.distinct⟩, rfl⟩
  | reference t =>
    have drafted : d.place (.reference t) =
        { d with
          memory := d.memory.setIfInBounds d.addr 0
          addr := d.addr + 1
          size := max d.size (d.addr + 1)
          fixups := ⟨d.addr, t.text, .ofToken t⟩ :: d.fixups } := by
      rw [place, emitReference, if_pos inside, emit, if_pos inside]
    rw [drafted]
    refine ⟨⟨tracks.clean, tracks.room, inside, memory, size, ?_, tracks.labels, within,
      tracks.located, tracks.distinct⟩, rfl⟩
    rw [tracks.fixups]
    rfl

theorem place_overflows (tracks : d.Tracks laid names) (outside : ¬d.addr < memorySize) (p : Piece) :
    (d.place p).errors ≠ [] := by
  cases p with
  | word value cursor => simp [place, emit, outside, tracks.room, fail]
  | reference t => simp [place, emitReference, emit, outside, tracks.room, fail]

theorem foldl_place_spoiled (spoiled : d.errors ≠ []) (pieces : List Piece) :
    (pieces.foldl place d).errors ≠ [] := by
  induction pieces generalizing d with
  | nil => exact spoiled
  | cons p pieces ih => exact ih (place_spoiled spoiled p)

theorem foldl_place_tracks (tracks : d.Tracks laid names) (pieces : List Piece)
    (inside : d.addr + pieces.length ≤ memorySize) :
    (pieces.foldl place d).Tracks ((numbered d.addr pieces).reverse ++ laid) names ∧
      (pieces.foldl place d).addr = d.addr + pieces.length := by
  induction pieces generalizing d laid with
  | nil => exact ⟨tracks, rfl⟩
  | cons p pieces ih =>
    rw [List.length_cons] at inside
    obtain ⟨tracks', addr⟩ := place_tracks tracks (by omega) p
    obtain ⟨rest, last⟩ := ih tracks' (by omega)
    rw [List.foldl_cons, numbered, List.reverse_cons, List.append_assoc, List.length_cons]
    rw [addr] at rest last
    exact ⟨rest, by omega⟩

theorem foldl_place_fits (tracks : d.Tracks laid names) (pieces : List Piece)
    (clean : (pieces.foldl place d).errors = []) : d.addr + pieces.length ≤ memorySize := by
  induction pieces generalizing d laid with
  | nil => exact tracks.bounded
  | cons p pieces ih =>
    by_cases inside : d.addr < memorySize
    · obtain ⟨tracks', addr⟩ := place_tracks tracks inside p
      have rest := ih tracks' clean
      rw [List.length_cons]
      omega
    · exact absurd clean (foldl_place_spoiled (place_overflows tracks inside p) pieces)

theorem declare_spoiled (spoiled : d.errors ≠ []) (t : Token) : (d.declare t).errors ≠ [] := by
  simp only [declare]
  split
  · exact d.fail_spoils _ _
  · split
    · exact d.fail_spoils _ _
    · split
      · exact d.fail_spoils _ _
      · exact spoiled

theorem foldl_declare_spoiled (spoiled : d.errors ≠ []) (tokens : List Token) :
    (tokens.foldl declare d).errors ≠ [] := by
  induction tokens generalizing d with
  | nil => exact spoiled
  | cons t tokens ih => exact ih (declare_spoiled spoiled t)

theorem declare_tracks (tracks : d.Tracks laid names) {t : Token}
    (clean : (d.declare t).errors = []) :
    (d.declare t).Tracks laid ((labelName t, d.addr) :: names) ∧ (d.declare t).addr = d.addr := by
  simp only [declare] at clean ⊢
  split at clean
  · exact absurd clean (d.fail_spoils _ _)
  · next free =>
    split at clean
    · exact absurd clean (d.fail_spoils _ _)
    · next fresh =>
      split at clean
      · exact absurd clean (d.fail_spoils _ _)
      · next inside =>
        rw [if_neg free, if_neg fresh, if_neg inside]
        have new : labelName t ∉ names.map Prod.fst := by
          intro declared
          apply fresh
          rw [tracks.labels, List.lookup_isSome_iff]
          obtain ⟨e, mem, same⟩ := List.mem_map.mp declared
          exact ⟨_, List.mem_map_of_mem mem, by simpa [labelName] using same.symm⟩
        refine ⟨⟨tracks.clean, tracks.room, tracks.bounded, tracks.memory, tracks.size, tracks.fixups,
          ?_, tracks.within, ?_, ?_⟩, rfl⟩
        · rw [tracks.labels]
          rfl
        · simpa using ⟨Nat.lt_of_not_le inside, fun a b => tracks.located (a, b)⟩
        · exact List.nodup_cons.mpr ⟨new, tracks.distinct⟩

theorem foldl_declare_tracks (tracks : d.Tracks laid names) {tokens : List Token}
    (clean : (tokens.foldl declare d).errors = []) :
    (tokens.foldl declare d).Tracks laid
        ((tokens.map fun t => (labelName t, d.addr)).reverse ++ names) ∧
      (tokens.foldl declare d).addr = d.addr := by
  induction tokens generalizing d names with
  | nil => exact ⟨tracks, rfl⟩
  | cons t tokens ih =>
    by_cases spoiled : (d.declare t).errors = []
    · obtain ⟨tracks', addr⟩ := declare_tracks tracks spoiled
      obtain ⟨rest, last⟩ := ih tracks' clean
      rw [List.foldl_cons, List.map_cons, List.reverse_cons, List.append_assoc]
      rw [addr] at rest last
      exact ⟨rest, last⟩
    · exact absurd clean (foldl_declare_spoiled spoiled tokens)

end Tracks

end Draft

theorem literalValue_le {limit : Nat} {text : Bytes} {w : UInt16} (value : literalValue limit text = .ok w) :
    w.toNat ≤ limit := by
  simp only [literalValue] at value
  split at value
  · next n _ =>
    split at value
    · simp at value
    · next small =>
      obtain rfl := Except.ok.inj value
      exact Nat.le_trans (Nat.mod_le n _) (Nat.le_of_not_lt small)
  · simp at value
  · simp at value

theorem Draft.movesLabels_iff {s : Statement} :
    movesLabels s = true ↔ s.head.kind = .directive ∧ Directive.ofName? s.head.text = some .orig := by
  simp [movesLabels]

inductive Line.Lays (l : Line) : List Piece → Prop
  | bare (missing : l.statement = none) : Lays l []
  | orig {s : Statement} {n : UInt16} (stated : l.statement = some s) (moves : Draft.movesLabels s = true)
      (number : Draft.soleNumber s = .ok n) : Lays l []
  | placed {s : Statement} {pieces : List Piece} (stated : l.statement = some s) (lays : s.Lays pieces) :
      Lays l pieces

theorem size_of_movesLabels {s : Statement} (moves : Draft.movesLabels s = true) : s.size = 0 := by
  obtain ⟨directive, named⟩ := Draft.movesLabels_iff.mp moves
  rw [Statement.size, if_pos directive, named]

theorem Line.Lays.length_eq {l : Line} {pieces : List Piece} (lays : l.Lays pieces) :
    pieces.length = l.size := by
  cases lays with
  | bare missing => simp [Line.size, missing]
  | orig stated moves number => simp [Line.size, stated, size_of_movesLabels moves]
  | placed stated lays => simp [Line.size, stated, lays.length_eq]

namespace Draft

def enter (d : Draft) (l : Line) : Draft :=
  match l.statement with
  | none => l.labels.foldl declare d
  | some s =>
    if movesLabels s then l.labels.foldl declare (d.directive s)
    else (l.labels.foldl declare d).recordLine l.start

theorem soleNumber_le {s : Statement} {n : UInt16} (number : soleNumber s = .ok n) :
    n.toNat ≤ memorySize := by
  obtain ⟨t, -, value⟩ := ok_of_bind number
  have limited := literalValue_le (ok_of_mapError value)
  rw [literalLimit] at limited
  rw [memorySize]
  omega

section Lines

variable {d : Draft} {l : Line} {pieces : List Piece}

theorem directive_moves {s : Statement} {n : UInt16} (moves : movesLabels s = true)
    (number : soleNumber s = .ok n) (d : Draft) : d.directive s = { d with addr := n.toNat } := by
  simp only [directive, (movesLabels_iff.mp moves).2, number]

theorem directive_stuck {s : Statement} {e : Error} (moves : movesLabels s = true)
    (number : soleNumber s = .error e) (d : Draft) : d.directive s = d.failWith e := by
  simp only [directive, (movesLabels_iff.mp moves).2, number]

theorem line_eq (lays : l.Lays pieces) (d : Draft) : d.line l = pieces.foldl place (d.enter l) := by
  cases lays with
  | bare missing => simp [line, enter, missing]
  | orig stated moves number => simp [line, enter, stated, moves]
  | placed stated lays =>
    obtain ⟨stays, drafted⟩ := statement_eq lays
    simp [line, enter, stated, stays, drafted]

theorem line_lays (clean : (d.line l).errors = []) : ∃ pieces, l.Lays pieces := by
  cases stated : l.statement with
  | none => exact ⟨[], .bare stated⟩
  | some s =>
    cases moves : movesLabels s with
    | true =>
      cases number : soleNumber s with
      | ok n => exact ⟨[], .orig stated moves number⟩
      | error e =>
        have drafted : d.line l = l.labels.foldl declare (d.failWith e) := by
          simp [line, stated, moves, directive_stuck moves number]
        exact absurd (drafted ▸ clean) (foldl_declare_spoiled (d.fail_spoils _ _) l.labels)
    | false =>
      obtain ⟨pieces, lays⟩ | spoils := statement_cases moves
      · exact ⟨pieces, .placed stated lays⟩
      · have drafted : d.line l = ((l.labels.foldl declare d).recordLine l.start).statement s := by
          simp [line, stated, moves]
        exact absurd (drafted ▸ clean) (spoils _)

theorem enter_spoiled (spoiled : d.errors ≠ []) (lays : l.Lays pieces) : (d.enter l).errors ≠ [] := by
  cases lays with
  | bare missing =>
    simpa [enter, missing] using foldl_declare_spoiled spoiled l.labels
  | @orig s n stated moves number =>
    have moved : ({ d with addr := n.toNat } : Draft).errors ≠ [] := spoiled
    simpa [enter, stated, moves, directive_moves moves number] using foldl_declare_spoiled moved l.labels
  | placed stated lays =>
    simp only [enter, stated, (statement_eq lays).1, Bool.false_eq_true, if_false, recordLine]
    split <;> exact foldl_declare_spoiled spoiled l.labels

theorem line_spoiled (spoiled : d.errors ≠ []) (l : Line) : (d.line l).errors ≠ [] := by
  intro clean
  obtain ⟨pieces, lays⟩ := line_lays clean
  rw [line_eq lays] at clean
  exact foldl_place_spoiled (enter_spoiled spoiled lays) pieces clean

theorem foldl_line_spoiled (spoiled : d.errors ≠ []) (lines : List Line) :
    (lines.foldl line d).errors ≠ [] := by
  induction lines generalizing d with
  | nil => exact spoiled
  | cons l lines ih => exact ih (line_spoiled spoiled l)

variable {laid : List (Nat × Piece)} {names : List (Bytes × Nat)}

theorem Tracks.moveTo (tracks : d.Tracks laid names) {addr : Nat} (bounded : addr ≤ memorySize) :
    ({ d with addr } : Draft).Tracks laid names :=
  ⟨tracks.clean, tracks.room, bounded, tracks.memory, tracks.size, tracks.fixups, tracks.labels,
    tracks.within, tracks.located, tracks.distinct⟩

theorem Tracks.recordLine (tracks : d.Tracks laid names) (start : Position) :
    (d.recordLine start).Tracks laid names ∧ (d.recordLine start).addr = d.addr := by
  rw [Draft.recordLine]
  split
  · exact ⟨⟨tracks.clean, tracks.room, tracks.bounded, tracks.memory, tracks.size, tracks.fixups,
      tracks.labels, tracks.within, tracks.located, tracks.distinct⟩, rfl⟩
  · exact ⟨tracks, rfl⟩

theorem enter_tracks (tracks : d.Tracks laid names) (lays : l.Lays pieces)
    (clean : (d.enter l).errors = []) :
    (d.enter l).Tracks laid ((l.labels.map fun t => (labelName t, l.base d.addr)).reverse ++ names) ∧
      (d.enter l).addr = l.base d.addr := by
  cases lays with
  | bare missing =>
    have entered : d.enter l = l.labels.foldl declare d := by simp [enter, missing]
    have base : l.base d.addr = d.addr := by simp [Line.base, missing]
    rw [entered] at clean ⊢
    rw [base]
    exact foldl_declare_tracks tracks clean
  | @orig s n stated moves number =>
    have entered : d.enter l = l.labels.foldl declare { d with addr := n.toNat } := by
      simp [enter, stated, moves, directive_moves moves number]
    have base : l.base d.addr = n.toNat := by simp [Line.base, stated, moves, soleNumber_ok number]
    rw [entered] at clean ⊢
    rw [base]
    exact foldl_declare_tracks (tracks.moveTo (soleNumber_le number)) clean
  | placed stated lays =>
    have stays := (statement_eq lays).1
    have entered : d.enter l = (l.labels.foldl declare d).recordLine l.start := by
      simp [enter, stated, stays]
    have base : l.base d.addr = d.addr := by simp [Line.base, stated, stays]
    have declared : (l.labels.foldl declare d).errors = [] := by
      rw [entered, Draft.recordLine] at clean
      split at clean <;> exact clean
    obtain ⟨tracks', addr⟩ := foldl_declare_tracks tracks declared
    rw [entered, base]
    exact ⟨(tracks'.recordLine l.start).1, (tracks'.recordLine l.start).2.trans addr⟩

theorem enter_clean (tracks : d.Tracks laid names) (lays : l.Lays pieces) (unlabelled : l.labels = []) :
    (d.enter l).errors = [] := by
  cases lays with
  | bare missing => simp [enter, missing, unlabelled, tracks.clean]
  | orig stated moves number =>
    simp [enter, stated, moves, directive_moves moves number, unlabelled, tracks.clean]
  | placed stated lays =>
    simp only [enter, stated, (statement_eq lays).1, unlabelled, List.foldl_nil, Bool.false_eq_true, if_false]
    exact (tracks.recordLine l.start).1.clean

theorem line_tracks (tracks : d.Tracks laid names) (lays : l.Lays pieces)
    (entered : (d.enter l).errors = []) (fits : l.base d.addr + l.size ≤ memorySize) :
    (d.line l).Tracks ((numbered (l.base d.addr) pieces).reverse ++ laid)
        ((l.labels.map fun t => (labelName t, l.base d.addr)).reverse ++ names) ∧
      (d.line l).addr = l.base d.addr + l.size := by
  obtain ⟨tracks', addr⟩ := enter_tracks tracks lays entered
  rw [← addr, ← lays.length_eq] at fits
  have placed := foldl_place_tracks tracks' pieces fits
  rw [addr] at placed
  rw [line_eq lays, ← lays.length_eq]
  exact placed

theorem line_fits (tracks : d.Tracks laid names) (lays : l.Lays pieces) (clean : (d.line l).errors = []) :
    (d.enter l).errors = [] ∧ l.base d.addr + l.size ≤ memorySize := by
  rw [line_eq lays] at clean
  have entered : (d.enter l).errors = [] := by
    by_contra spoiled
    exact foldl_place_spoiled spoiled pieces clean
  obtain ⟨tracks', addr⟩ := enter_tracks tracks lays entered
  rw [← addr, ← lays.length_eq]
  exact ⟨entered, foldl_place_fits tracks' pieces clean⟩

end Lines

end Draft

inductive Emits : (addr : Nat) → List Line → List (Nat × Piece) → Prop
  | nil {addr : Nat} : Emits addr [] []
  | cons {addr : Nat} {l : Line} {lines : List Line} {pieces : List Piece} {more : List (Nat × Piece)}
      (lays : l.Lays pieces) (rest : Emits (l.base addr + l.size) lines more) :
      Emits addr (l :: lines) (numbered (l.base addr) pieces ++ more)

namespace Emits

variable {addr : Nat} {lines : List Line} {emitted : List (Nat × Piece)}

theorem map_fst (emits : Emits addr lines emitted) :
    emitted.map Prod.fst = addressesOf (layout addr lines) := by
  induction emits with
  | nil => rfl
  | cons lays rest ih =>
    rw [List.map_append, map_fst_numbered, lays.length_eq, ih]
    rfl

theorem mem (emits : Emits addr lines emitted) {base : Nat} {l : Line}
    (placed : (base, l) ∈ layout addr lines) :
    ∃ pieces, l.Lays pieces ∧ ∀ k p, pieces[k]? = some p → (base + k, p) ∈ emitted := by
  induction emits with
  | nil => simp [layout] at placed
  | @cons addr first lines pieces more lays rest ih =>
    rw [layout, List.mem_cons] at placed
    obtain here | later := placed
    · obtain ⟨rfl, rfl⟩ := Prod.mk.inj here
      exact ⟨pieces, lays, fun k p listed => List.mem_append_left _ (mem_numbered listed)⟩
    · obtain ⟨pieces', lays', all⟩ := ih later
      exact ⟨pieces', lays', fun k p listed => List.mem_append_right _ (all k p listed)⟩

end Emits

namespace Draft

variable {d : Draft} {laid : List (Nat × Piece)} {names : List (Bytes × Nat)}

theorem foldl_line_tracks (tracks : d.Tracks laid names) {lines : List Line}
    (clean : (lines.foldl line d).errors = []) :
    ∃ emitted, Emits d.addr lines emitted ∧
      (lines.foldl line d).Tracks (emitted.reverse ++ laid)
        ((labelsOf (layout d.addr lines)).reverse ++ names) := by
  induction lines generalizing d laid names with
  | nil => exact ⟨[], .nil, tracks⟩
  | cons l lines ih =>
    have first : (d.line l).errors = [] := by
      by_contra spoiled
      exact foldl_line_spoiled spoiled lines clean
    obtain ⟨pieces, lays⟩ := line_lays first
    obtain ⟨entered, fits⟩ := line_fits tracks lays first
    obtain ⟨tracks', addr⟩ := line_tracks tracks lays entered fits
    obtain ⟨more, emits, all⟩ := ih tracks' clean
    rw [addr] at emits all
    refine ⟨_, .cons lays emits, ?_⟩
    rw [List.foldl_cons, List.reverse_append, List.append_assoc, layout, labelsOf, List.flatMap_cons,
      List.reverse_append, List.append_assoc]
    exact all

theorem finish_eq_foldr (d : Draft) : d.finish = d.fixups.foldr (fun f e => e.fix f) d := by
  rw [finish, List.foldl_reverse]

theorem foldr_fix {fixups : List Fixup} (clean : (fixups.foldr (fun f e => fix e f) d).errors = []) :
    d.errors = [] ∧
      (fixups.foldr (fun f e => fix e f) d).size = d.size ∧
      (fixups.foldr (fun f e => fix e f) d).labels = d.labels ∧
      (∀ f ∈ fixups, (d.labels.lookup f.name).isSome) ∧
      ∀ k, k < memorySize →
        (fixups.foldr (fun f e => fix e f) d).memory[k]? =
          match fixups.find? (·.addr = k) with
          | some f => d.labels.lookup f.name
          | none => d.memory[k]? := by
  induction fixups with
  | nil => exact ⟨clean, rfl, rfl, by simp, by simp⟩
  | cons f fixups ih =>
    rw [List.foldr_cons] at clean ⊢
    generalize later : fixups.foldr (fun f e => fix e f) d = e at clean ih ⊢
    cases known : e.labels.lookup f.name with
    | none =>
      rw [fix, known] at clean
      exact absurd clean (e.fail_spoils _ _)
    | some addr =>
      simp only [fix, known] at clean ⊢
      obtain ⟨before, size, labels, all, memory⟩ := ih clean
      rw [labels] at known
      refine ⟨before, size, labels, ?_, fun k inside => ?_⟩
      · exact List.forall_mem_cons.mpr ⟨by rw [known]; rfl, all⟩
      · rw [Vector.getElem?_setIfInBounds, List.find?_cons]
        by_cases same : f.addr = k
        · simp [same, inside, known]
        · simp [same, memory k inside]

theorem lookup_labels (tracks : d.Tracks laid names) (name : Bytes) :
    d.labels.lookup name = (names.lookup name).map Nat.toUInt16 := by
  rw [tracks.labels]
  clear tracks
  induction names with
  | nil => rfl
  | cons e names ih =>
    rw [List.map_cons, List.lookup_cons, List.lookup_cons, ih]
    cases name == e.1 <;> rfl

theorem find?_fixup (laid : List (Nat × Piece)) (k : Nat) :
    (laid.filterMap fixup?).find? (·.addr = k) =
      (laid.find? fun e => goesTo k e && e.2.isReference).bind fixup? := by
  have waits : (fun e => (fixup? e).any (·.addr = k)) = fun e => goesTo k e && e.2.isReference := by
    funext e
    obtain ⟨addr, p⟩ := e
    cases p <;> simp [fixup?, goesTo, Piece.isReference]
  rw [List.find?_filterMap, waits]

/-- A cell of a finished draft holds the word of the piece that decides it. -/
theorem finish_cell (tracks : d.Tracks laid names) (clean : d.finish.errors = []) {k : Nat} {p : Piece}
    (decides : decided? laid k = some p) :
    ∃ w, p.word? names = some w ∧ d.finish.memory[k]? = some w := by
  rw [finish_eq_foldr] at clean ⊢
  obtain ⟨-, -, -, known, memory⟩ := foldr_fix clean
  have mem : (k, p) ∈ laid := decided?_mem decides
  have inside : k < memorySize := tracks.within _ mem
  have cell := memory k inside
  rw [tracks.fixups, find?_fixup] at cell
  rw [tracks.fixups]
  cases p with
  | reference t =>
    rw [find?_reference decides] at cell
    have found : (d.labels.lookup t.text).isSome := by
      refine known ⟨k, t.text, .ofToken t⟩ ?_
      rw [tracks.fixups]
      exact List.mem_filterMap.mpr ⟨_, mem, rfl⟩
    obtain ⟨w, word⟩ := Option.isSome_iff_exists.mp found
    exact ⟨w, by rw [Piece.word?, ← lookup_labels tracks, word], cell.trans word⟩
  | word value cursor =>
    obtain ⟨unfixed, latest⟩ := find?_word decides
    rw [unfixed] at cell
    refine ⟨value, rfl, cell.trans ?_⟩
    simp [tracks.memory k inside, lookup_eq_find?, latest, Piece.provisional]

theorem finish_untouched (tracks : d.Tracks laid names) (clean : d.finish.errors = []) {k : Nat}
    (inside : k < memorySize) (untouched : k ∉ laid.map Prod.fst) : d.finish.memory[k]? = some 0 := by
  rw [finish_eq_foldr] at clean ⊢
  obtain ⟨-, -, -, -, memory⟩ := foldr_fix clean
  have missing : laid.lookup k = none := lookup_eq_none_of_fresh untouched
  have unfixed : (laid.find? fun e => goesTo k e && e.2.isReference) = none := by
    rw [List.find?_eq_none]
    intro e mem here
    simp only [goesTo, Bool.and_eq_true, decide_eq_true_eq] at here
    exact untouched (List.mem_map.mpr ⟨e, mem, here.1⟩)
  rw [memory k inside, tracks.fixups, find?_fixup, unfixed]
  simp [tracks.memory k inside, missing]

theorem finish_size (tracks : d.Tracks laid names) (clean : d.finish.errors = []) :
    d.finish.size = extent laid := by
  rw [finish_eq_foldr] at clean ⊢
  exact (foldr_fix clean).2.1.trans tracks.size

end Draft

/-- The words of a finished draft: as many as reach to its highest cell, each the word of the
piece that decides it, or zero. -/
theorem finish_words {d : Draft} {laid : List (Nat × Piece)} {names : List (Bytes × Nat)}
    (tracks : d.Tracks laid names) (clean : d.finish.errors = []) :
    (d.finish.memory.toList.take d.finish.size).length = extent laid ∧ extent laid ≤ memorySize ∧
      (∀ k p, decided? laid k = some p → ∃ w, p.word? names = some w ∧
        (d.finish.memory.toList.take d.finish.size)[k]? = some w) ∧
      ∀ k, k < extent laid → k ∉ laid.map Prod.fst →
        (d.finish.memory.toList.take d.finish.size)[k]? = some 0 := by
  have size := Draft.finish_size tracks clean
  have fits : extent laid ≤ memorySize := by
    obtain zero | ⟨e, mem, last⟩ := extent_mem laid
    · omega
    · exact last ▸ tracks.within e mem
  have cell : ∀ k, k < extent laid →
      (d.finish.memory.toList.take d.finish.size)[k]? = d.finish.memory[k]? := by
    intro k below
    rw [List.getElem?_take_of_lt (size ▸ below)]
    simp
  refine ⟨by simp [size, fits], fits, fun k p decides => ?_, fun k below untouched => ?_⟩
  · obtain ⟨w, word, held⟩ := Draft.finish_cell tracks clean decides
    exact ⟨w, word, by rw [cell k (lt_extent (decided?_mem decides)), held]⟩
  · rw [cell k below, Draft.finish_untouched tracks clean (by omega) untouched]

theorem finish_image {d : Draft} {laid : List (Nat × Piece)} {names : List (Bytes × Nat)}
    (tracks : d.Tracks laid names) (once : (laid.map Prod.fst).Nodup) (clean : d.finish.errors = []) :
    (d.finish.memory.toList.take d.finish.size).length = extent laid ∧ extent laid ≤ memorySize ∧
      (∀ e ∈ laid, ∃ w, e.2.word? names = some w ∧
        (d.finish.memory.toList.take d.finish.size)[e.1]? = some w) ∧
      ∀ k, k < extent laid → k ∉ laid.map Prod.fst →
        (d.finish.memory.toList.take d.finish.size)[k]? = some 0 := by
  obtain ⟨length, fits, written, unwritten⟩ := finish_words tracks clean
  exact ⟨length, fits, fun e mem => written e.1 e.2 (decided?_of_once once mem), unwritten⟩

end WordMachine.Assembly

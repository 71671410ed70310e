import WordMachine.Proofs.Assembly.Agreement

/-! Sources that emit to a cell more than once. Words are written as they are met, so the later
of two stays, but references to labels are written when all labels are known, behind all else.
The last reference to a cell therefore decides it, also where a plain word was emitted later. -/

namespace WordMachine.Assembly

/-- An emitted word: what it stands for, and whether it waits for a label. -/
structure Emission where
  word : Option UInt16
  deferred : Bool
  deriving DecidableEq, Repr

namespace Statement

def deferred (s : Statement) : List Bool :=
  let operands := s.operands.map fun t => decide (operandKind t = .label)
  if s.head.kind = .directive then
    match Directive.ofName? s.head.text with
    | some .word => operands
    | _ => List.replicate s.size false
  else match s.opcode? with
    | some _ => false :: operands
    | none => []

def emissions (labels : List (Bytes × Nat)) (s : Statement) : List Emission :=
  List.zipWith .mk (s.words labels) s.deferred

end Statement

def Line.emissions (labels : List (Bytes × Nat)) (l : Line) : List Emission :=
  match l.statement with
  | some s => s.emissions labels
  | none => []

def emissionsOf (labels : List (Bytes × Nat)) (placed : List (Nat × Line)) : List (Nat × Emission) :=
  placed.flatMap fun (base, l) => (List.range' base l.size).zip (l.emissions labels)

def emissionsAt (placed : List (Nat × Line)) (addr : Nat) : List Emission :=
  ((emissionsOf (labelsOf placed) placed).filter (·.1 = addr)).map Prod.snd

/-- The emission that decides a cell: the last that waits for a label, or else the last. -/
def deciding? (emissions : List Emission) : Option Emission :=
  (emissions.filter (·.deferred)).getLast?.or emissions.getLast?

theorem deciding?_of_last {emissions : List Emission} {last : Emission}
    (ends : emissions.getLast? = some last)
    (plain : last.deferred = true ∨ ∀ e ∈ emissions, e.deferred = false) :
    deciding? emissions = some last := by
  rw [deciding?, ends]
  obtain waits | plain := plain
  · obtain ⟨before, rfl⟩ := List.getLast?_eq_some_iff.mp ends
    simp [List.filter_append, waits]
  · have none : emissions.filter (·.deferred) = [] := by simpa using plain
    rw [none]
    rfl

theorem isReference_of_operandPiece? {limit : Nat} {t : Token} {p : Piece}
    (piece : operandPiece? limit t = some p) : p.isReference = decide (operandKind t = .label) := by
  cases kind : operandKind t with
  | literal | character | register =>
    simp only [operandPiece?, kind] at piece
    obtain ⟨w, -, rfl⟩ := Option.map_eq_some_iff.mp piece
    rfl
  | label =>
    simp only [operandPiece?, kind] at piece
    obtain rfl := Option.some.inj piece
    rfl
  | string | unknown => simp [operandPiece?, kind] at piece

theorem map_isReference_word (words : List UInt16) (cursor : Cursor) :
    (words.map (Piece.word · cursor)).map Piece.isReference = List.replicate words.length false := by
  rw [List.map_map]
  exact List.map_const'

def Piece.emission (labels : List (Bytes × Nat)) (p : Piece) : Emission := ⟨p.word? labels, p.isReference⟩

namespace Statement.Lays

variable {s : Statement} {pieces : List Piece}

theorem deferred_eq (lays : s.Lays pieces) : s.deferred = pieces.map Piece.isReference := by
  have size := lays.length_eq
  cases lays with
  | @instruction op pieces named known count operands =>
    have zipped : (op.roles.zip s.operands).map Prod.snd = s.operands :=
      List.map_snd_zip (Nat.le_of_eq count)
    have all : pieces.map Piece.isReference =
        ((op.roles.zip s.operands).map Prod.snd).map fun t => decide (operandKind t = .label) := by
      rw [List.map_map]
      exact map_of_forall₂
        (fun piece => isReference_of_operandPiece? (operandPiece?_of_rolePiece? piece).1) operands
    simp only [deferred, if_neg named, known, List.map_cons, all, zipped]
    rfl
  | word directive named some' operands =>
    simp only [deferred, if_pos directive, named]
    exact (map_of_forall₂ isReference_of_operandPiece? operands).symm
  | blkw directive named | string directive named | print directive named =>
    rw [map_isReference_word]
    rw [List.length_map] at size
    simp only [deferred, if_pos directive, named, size]

theorem emissions_eq (lays : s.Lays pieces) (labels : List (Bytes × Nat)) :
    s.emissions labels = pieces.map (Piece.emission labels) := by
  rw [emissions, lays.words_eq, lays.deferred_eq, List.zipWith_map, List.zipWith_self]
  rfl

end Statement.Lays

theorem Line.Lays.emissions_eq {l : Line} {pieces : List Piece} (lays : l.Lays pieces)
    (labels : List (Bytes × Nat)) : l.emissions labels = pieces.map (Piece.emission labels) := by
  cases lays with
  | bare missing => simp [emissions, missing]
  | orig stated moves number =>
    obtain ⟨directive, named⟩ := Draft.movesLabels_iff.mp moves
    simp [emissions, stated, Statement.emissions, Statement.words, directive, named]
  | placed stated lays => simp [emissions, stated, lays.emissions_eq]

theorem zip_numbered {β : Type} (view : Piece → β) (base : Nat) (pieces : List Piece) :
    (List.range' base pieces.length).zip (pieces.map view) =
      (numbered base pieces).map fun e => (e.1, view e.2) := by
  induction pieces generalizing base with
  | nil => rfl
  | cons p pieces ih =>
    rw [List.length_cons, List.range'_succ, List.map_cons, List.zip_cons_cons, ih, numbered, List.map_cons]

namespace Emits

variable {lines : List Line} {emitted : List (Nat × Piece)}

theorem emissionsOf_eq {addr : Nat} (emits : Emits addr lines emitted) (labels : List (Bytes × Nat)) :
    emissionsOf labels (layout addr lines) = emitted.map fun e => (e.1, e.2.emission labels) := by
  induction emits with
  | nil => rfl
  | @cons addr l lines pieces more lays rest ih =>
    have first : (List.range' (l.base addr) l.size).zip (l.emissions labels) =
        (numbered (l.base addr) pieces).map fun e => (e.1, e.2.emission labels) := by
      rw [lays.emissions_eq, ← lays.length_eq, zip_numbered]
    rw [List.map_append, ← ih, ← first]
    rfl

theorem emissionsAt_eq (emits : Emits 0 lines emitted) (k : Nat) :
    emissionsAt (layout 0 lines) k =
      ((emitted.reverse.filter (goesTo k)).map fun e => e.2.emission (labelsOf (layout 0 lines))).reverse := by
  rw [emissionsAt, emits.emissionsOf_eq, List.filter_map, List.map_map, List.filter_reverse,
    List.map_reverse, List.reverse_reverse]
  rfl

theorem getLast?_emissionsAt (emits : Emits 0 lines emitted) (k : Nat) :
    (emissionsAt (layout 0 lines) k).getLast? =
      (emitted.reverse.find? (goesTo k)).map fun e => e.2.emission (labelsOf (layout 0 lines)) := by
  rw [emits.emissionsAt_eq, List.getLast?_reverse, List.head?_map, List.head?_filter]

theorem deciding?_emissionsAt (emits : Emits 0 lines emitted) (k : Nat) :
    deciding? (emissionsAt (layout 0 lines) k) =
      (decided? emitted.reverse k).map (Piece.emission (labelsOf (layout 0 lines))) := by
  have waits : (fun e => decide (goesTo k e = true ∧ ((fun e : Emission => e.deferred) ∘
      fun e => e.2.emission (labelsOf (layout 0 lines))) e = true)) =
        fun e => goesTo k e && e.2.isReference := by
    funext e
    rw [Bool.eq_iff_iff, decide_eq_true_iff, Bool.and_eq_true]
    rfl
  rw [deciding?, emits.getLast?_emissionsAt, emits.emissionsAt_eq, List.getLast?_filter,
    List.reverse_reverse, List.find?_map, List.find?_filter, waits, ← Option.map_or, decided?,
    Option.map_map]
  rfl

end Emits

theorem decided?_of_mem {laid : List (Nat × Piece)} {k : Nat} (mem : k ∈ laid.map Prod.fst) :
    ∃ e p, laid.find? (goesTo k) = some e ∧ decided? laid k = some p := by
  obtain ⟨e, listed, here⟩ := List.mem_map.mp mem
  have found : (laid.find? (goesTo k)).isSome := by
    rw [List.find?_isSome]
    exact ⟨e, listed, by simpa [goesTo] using here⟩
  obtain ⟨latest, found⟩ := Option.isSome_iff_exists.mp found
  refine ⟨latest, ?_⟩
  rw [decided?, found]
  cases laid.find? fun e => goesTo k e && e.2.isReference with
  | none => exact ⟨latest.2, rfl, rfl⟩
  | some f => exact ⟨f.2, rfl, rfl⟩

/-- Every cell that is emitted to holds the word of the emission that decides it. That is the
one that comes last in the source, if it waits for a label or none of them does. -/
theorem assemble_decided {source : Bytes} {table : Option SymbolTable} {image : List UInt16}
    (accepted : (assemble source table).outcome = .ok image) :
    ∃ lines, parse source = .ok lines ∧
      ∀ addr ∈ addressesOf (layout 0 lines), ∃ last e w,
        (emissionsAt (layout 0 lines) addr).getLast? = some last ∧
        deciding? (emissionsAt (layout 0 lines) addr) = some e ∧ e.word = some w ∧ image[addr]? = some w ∧
        (last.deferred = true ∨ (∀ f ∈ emissionsAt (layout 0 lines) addr, f.deferred = false) → e = last) := by
  obtain ⟨lines, parsed, finished, whole⟩ := assemble_ok accepted
  refine ⟨lines, parsed, fun addr listed => ?_⟩
  have clean : (lines.foldl Draft.line { table }).errors = [] := by
    rw [Draft.finish_eq_foldr] at finished
    exact (Draft.foldr_fix finished).1
  obtain ⟨emitted, emits, tracks⟩ := Draft.foldl_line_tracks (Draft.tracks_empty table) clean
  rw [List.append_nil, List.append_nil] at tracks
  have distinct : ((labelsOf (layout 0 lines)).map Prod.fst).Nodup := by
    have reversed := tracks.distinct
    rwa [List.map_reverse, List.nodup_reverse] at reversed
  obtain ⟨-, -, written, -⟩ := finish_words tracks finished
  rw [← whole] at written
  have mem : addr ∈ emitted.reverse.map Prod.fst := by
    rwa [List.map_reverse, List.mem_reverse, emits.map_fst]
  obtain ⟨latest, p, found, decides⟩ := decided?_of_mem mem
  obtain ⟨w, word, held⟩ := written addr p decides
  rw [Piece.word?_reverse distinct] at word
  have last := emits.getLast?_emissionsAt addr
  have decision := emits.deciding?_emissionsAt addr
  rw [found] at last
  rw [decides] at decision
  refine ⟨_, _, w, last, decision, word, held, fun undisputed => ?_⟩
  have same := deciding?_of_last last undisputed
  exact Option.some.inj (decision.symm.trans same)

def overwritten : Bytes := Bytes.ofString ".word end\n.orig 0\n.word 5\nend: halt\n"

theorem overwritten_image : (assemble overwritten none).outcome = .ok [1, 0] :=
  ok_of_toOption (by decide +kernel)

theorem overwritten_emissions {lines : List Line} (parsed : parse overwritten = .ok lines) :
    addressesOf (layout 0 lines) = [0, 0, 1] ∧
      emissionsAt (layout 0 lines) 0 = [⟨some 1, true⟩, ⟨some 5, false⟩] := by
  have facts : (parse overwritten).toOption.map (fun lines =>
      (addressesOf (layout 0 lines), emissionsAt (layout 0 lines) 0)) =
        some ([0, 0, 1], [⟨some 1, true⟩, ⟨some 5, false⟩]) := by
    decide +kernel
  simpa [parsed, Except.toOption] using facts

theorem assemble_decided_overwritten :
    ∃ lines e, parse overwritten = .ok lines ∧ deciding? (emissionsAt (layout 0 lines) 0) = some e ∧
      e.deferred = true ∧ ∃ w, e.word = some w ∧ ([1, 0] : List UInt16)[0]? = some w := by
  obtain ⟨lines, parsed, decided⟩ := assemble_decided overwritten_image
  obtain ⟨addresses, emissions⟩ := overwritten_emissions parsed
  obtain ⟨-, e, w, -, decides, word, held, -⟩ := decided 0 (by simp [addresses])
  refine ⟨lines, e, parsed, decides, ?_, w, word, held⟩
  rw [emissions] at decides
  exact Option.some.inj decides ▸ rfl

/-- The word that is emitted last to a cell need not be the one it holds. -/
theorem later_word_lost :
    ¬∀ (source : Bytes) (table : Option SymbolTable) (image : List UInt16) (lines : List Line),
      (assemble source table).outcome = .ok image → parse source = .ok lines →
      ∀ addr last, 1 < (emissionsAt (layout 0 lines) addr).length →
        (emissionsAt (layout 0 lines) addr).getLast? = some last → image[addr]? = last.word := by
  intro wins
  obtain ⟨lines, parsed, -, -⟩ := assemble_ok overwritten_image
  obtain ⟨-, emissions⟩ := overwritten_emissions parsed
  have held := wins overwritten none [1, 0] lines overwritten_image parsed 0 ⟨some 5, false⟩
    (by rw [emissions]; decide) (by rw [emissions]; rfl)
  exact absurd held (by decide)

end WordMachine.Assembly

import WordMachine.Command.Assembler
import WordMachine.Proofs.Files
import WordMachine.Proofs.Machine.SnapshotForm
import WordMachine.Proofs.SymbolTable.Assembled

/-! The files that the assembler leaves. A source with errors leaves all of them as they were.
A source without leaves its image and, on demand, its symbol table beside the image. Names are
taken as they are given: an image whose name has the extension of tables gives way to the table,
and a source that one of the two names leads to gives way to what is written there. -/

namespace WordMachine

/-- An image that every machine loads as these words, with zeros behind them. -/
def Image.LoadsAs (image : Bytes) (words : List UInt16) : Prop :=
  ∀ m : Machine, ∃ m', m.loadImage image = .ok m' ∧
    m'.state.memory.toList = words ++ List.replicate (memorySize - words.length) 0

theorem Image.loadsAs_toBytes {words : List UInt16} (fits : words.length ≤ memorySize) :
    LoadsAs (toBytes words) words := by
  intro m
  refine ⟨{ m with state := { memory := memory words fits } }, ?_, by simp [memory, Vector.toList]⟩
  have even : words.length * 2 % 2 = 0 := by omega
  have within : ¬memorySize < words.length * 2 / 2 := by omega
  rw [Machine.loadImage, State.ofImage, toBytes_length, if_neg (by simp [even]), if_neg within,
    ofBytes_toBytes, State.ofWords, dif_pos fits]
  rfl

namespace Assembly

theorem assemble_length {source : Bytes} {table : Option SymbolTable} {image : List UInt16}
    (accepted : (assemble source table).outcome = .ok image) : image.length ≤ memorySize := by
  obtain ⟨lines, -, -, rfl⟩ := assemble_ok accepted
  rw [List.length_take, Vector.length_toList]
  exact Nat.min_le_right _ _

end Assembly

namespace Command.Assembler

/-- What a symbol table calls the source: its absolute name, if it has a name. -/
def Input.origin (i : Input) (files : Files) : Bytes := (i.file.map files.absolute).getD []

def Input.tableName (i : Input) : Bytes := Path.withExtension i.output ".syndb"

section Run

variable {args : List Bytes} {stdin : Bytes} {files : Files} {c : CommandLine} {i : Input}
  {words : List UInt16} {t : SymbolTable}

theorem run_eq (read : CommandLine.read flags 1 args = .ok c) (going : c.isOn "help" = false)
    (chosen : choose c stdin files = .ok i) : run args stdin files = assemble c i files := by
  rw [run, read]
  simp only [going, Bool.false_eq_true, if_false, chosen]

theorem run_eq_store (read : CommandLine.read flags 1 args = .ok c) (going : c.isOn "help" = false)
    (chosen : choose c stdin files = .ok i)
    (accepted : (Assembly.assemble i.text (freshTable c i files)).outcome = .ok words) :
    run args stdin files =
      store i words (Assembly.assemble i.text (freshTable c i files)).table files := by
  rw [run_eq read going chosen, assemble]
  simp only [accepted]

theorem store_image (done : (store i words none files).status = 0) :
    files.write i.output (Image.toBytes words) = .ok (store i words none files).files := by
  rw [store] at done ⊢
  cases written : files.write i.output (Image.toBytes words) with
  | error e => simp [written] at done
  | ok files' => rfl

theorem store_both (done : (store i words (some t) files).status = 0) :
    ∃ between, files.write i.output (Image.toBytes words) = .ok between ∧
      between.write i.tableName t.encode = .ok (store i words (some t) files).files := by
  rw [store] at done ⊢
  cases written : files.write i.output (Image.toBytes words) with
  | error e => simp [written] at done
  | ok between =>
    refine ⟨between, rfl, ?_⟩
    rw [written] at done
    rw [Input.tableName]
    cases written' : between.write (Path.withExtension i.output ".syndb") t.encode with
    | error e => simp [written'] at done
    | ok files' => simp [written']

theorem slash_notMem_syndb : Path.slash ∉ Bytes.ofString ".syndb" := by decide

theorem store_image_leaves (fits : words.length ≤ memorySize)
    (done : (store i words none files).status = 0) :
    (∃ image, (store i words none files).files.read i.output = .ok image ∧ Image.LoadsAs image words) ∧
      ∀ path before, files.read path = .ok before → files.place? path ≠ files.place? i.output →
        (store i words none files).files.read path = .ok before := by
  have written := store_image done
  exact ⟨⟨_, Files.read_write written, Image.loadsAs_toBytes fits⟩,
    fun path before reads apart => (Files.read_write_of_ne written reads apart).1⟩

theorem store_both_leaves (fits : words.length ≤ memorySize)
    (done : (store i words (some t) files).status = 0) :
    (Path.extension i.output ≠ ".syndb" → ∃ image,
        (store i words (some t) files).files.read i.output = .ok image ∧ Image.LoadsAs image words) ∧
      (store i words (some t) files).files.read i.tableName = .ok t.encode ∧
      ∀ path before, files.read path = .ok before → files.place? path ≠ files.place? i.output →
        files.place? path ≠ files.place? i.tableName →
        (store i words (some t) files).files.read path = .ok before := by
  obtain ⟨between, written, written'⟩ := store_both done
  refine ⟨fun other => ⟨_, ?_, Image.loadsAs_toBytes fits⟩, Files.read_write written', ?_⟩
  · exact Files.read_beside written written' slash_notMem_syndb other
  · intro path before reads apart apart'
    exact Files.read_apart written written' slash_notMem_syndb reads apart apart'

/-- A source with errors fails and leaves every file as it was. A run that succeeds leaves an
image that loads as the assembled words with zeros behind them, unless a table is asked for and
the name of the image has the extension of tables; where one is asked for, it leaves the table of
the source under the name of the image with that extension, and the table is read back if the
name of the source can be stored. Every other file is as it was, the source too, unless its name
leads where that of the image or of the table does. -/
theorem run_leaves (args : List Bytes) (stdin : Bytes) (files : Files) (c : CommandLine) (i : Input)
    (read : CommandLine.read flags 1 args = .ok c) (going : c.isOn "help" = false)
    (chosen : choose c stdin files = .ok i) :
    (∀ errors, (Assembly.assemble i.text (freshTable c i files)).outcome = .error errors →
        (run args stdin files).status = 1 ∧ (run args stdin files).files = files) ∧
      ((run args stdin files).status = 0 →
        ∃ words, (Assembly.assemble i.text (freshTable c i files)).outcome = .ok words ∧
          (¬(c.isOn "debug" = true ∧ Path.extension i.output = ".syndb") → ∃ image,
            (run args stdin files).files.read i.output = .ok image ∧ Image.LoadsAs image words) ∧
          (c.isOn "debug" = true → SymbolTable.StorableText (i.origin files) →
            i.text.length < Cbor.lengthBound → ∃ stored t,
              (run args stdin files).files.read i.tableName = .ok stored ∧
              (Assembly.assemble i.text (freshTable c i files)).table = some t ∧
              SymbolTable.decode stored = .ok t) ∧
          ∀ path before, files.read path = .ok before → files.place? path ≠ files.place? i.output →
            (c.isOn "debug" = true → files.place? path ≠ files.place? i.tableName) →
            (run args stdin files).files.read path = .ok before) := by
  have fails : ∀ errors, (Assembly.assemble i.text (freshTable c i files)).outcome = .error errors →
      (run args stdin files).status = 1 ∧ (run args stdin files).files = files := by
    intro errors failed
    simp [run_eq read going chosen, assemble, failed]
  refine ⟨fails, fun done => ?_⟩
  cases outcome : (Assembly.assemble i.text (freshTable c i files)).outcome with
  | error errors => simp [(fails errors outcome).1] at done
  | ok words =>
    have fits := Assembly.assemble_length outcome
    rw [run_eq_store read going chosen outcome] at done ⊢
    refine ⟨words, rfl, ?_⟩
    cases debug : c.isOn "debug" with
    | false =>
      have plain : freshTable c i files = none := by simp [freshTable, debug]
      rw [plain] at outcome done ⊢
      rw [Assembly.assemble_table_none outcome] at done ⊢
      obtain ⟨image, others⟩ := store_image_leaves fits done
      exact ⟨fun _ => image, by simp, fun path before reads apart _ => others path before reads apart⟩
    | true =>
      have fresh : freshTable c i files = some { source := i.origin files } := by
        simp [freshTable, debug, Input.origin]
      rw [fresh] at outcome done ⊢
      obtain ⟨-, t, -, attached, -⟩ := Assembly.assemble_charted outcome
      rw [attached] at done ⊢
      obtain ⟨image, table, others⟩ := store_both_leaves fits done
      refine ⟨fun other => image fun same => other ⟨rfl, same⟩, fun _ named countable => ?_, ?_⟩
      · obtain ⟨t', attached', storable⟩ := Assembly.assemble_storable outcome named countable
        obtain rfl := Option.some.inj (attached.symm.trans attached')
        exact ⟨_, t, table, rfl, SymbolTable.decode_encode storable⟩
      · exact fun path before reads apart apart' => others path before reads apart (apart' rfl)

end Run

def haltIn (name : Bytes) : Files := { entries := [([name], .file "halt\n")] }

theorem halt_outcome :
    (Assembly.assemble "halt\n" (some { source := "/p.asm" })).outcome = .ok [0] := by
  have words : (Assembly.assemble "halt\n" (some { source := "/p.asm" })).outcome.toOption =
      some [0] := by decide +kernel
  cases outcome : (Assembly.assemble "halt\n" (some { source := "/p.asm" })).outcome with
  | error errors => simp [outcome, Except.toOption] at words
  | ok image => simpa [outcome, Except.toOption] using words

theorem freshTable_halt {c : CommandLine} (output : Bytes) (debug : c.isOn "debug" = true) :
    freshTable c ⟨"p.asm", "halt\n", some "p.asm", output⟩ (haltIn "p.asm") =
      some { source := "/p.asm" } := by
  have named : (haltIn "p.asm").absolute "p.asm" = "/p.asm" := by decide +kernel
  rw [freshTable, if_pos debug, Option.map_some, named, Option.getD_some]

theorem run_leaves_halt :
    (run ["--debug", "p.asm"] [] (haltIn "p.asm")).status = 0 ∧
      (∃ image, (run ["--debug", "p.asm"] [] (haltIn "p.asm")).files.read "p.bin" = .ok image ∧
        Image.LoadsAs image [0]) ∧
      (∃ stored t, (run ["--debug", "p.asm"] [] (haltIn "p.asm")).files.read "p.syndb" = .ok stored ∧
        SymbolTable.decode stored = .ok t) ∧
      (run ["--debug", "p.asm"] [] (haltIn "p.asm")).files.read "p.asm" = .ok "halt\n" := by
  have done : (run ["--debug", "p.asm"] [] (haltIn "p.asm")).status = 0 := by decide +kernel
  have fresh := freshTable_halt "p.bin" (c := { given := [("debug", "true")], operands := ["p.asm"] })
    (by decide +kernel)
  obtain ⟨-, success⟩ := run_leaves ["--debug", "p.asm"] [] (haltIn "p.asm")
    { given := [("debug", "true")], operands := ["p.asm"] } ⟨"p.asm", "halt\n", some "p.asm", "p.bin"⟩
    (by decide +kernel) (by decide +kernel) (by decide +kernel)
  obtain ⟨words, outcome, image, table, others⟩ := success done
  obtain rfl : [0] = words := Except.ok.inj (halt_outcome.symm.trans (fresh ▸ outcome))
  obtain ⟨stored, t, reads, -, decoded⟩ := table (by decide +kernel)
    ⟨by decide +kernel, by decide +kernel⟩ (by decide +kernel)
  refine ⟨done, image (by decide +kernel), ⟨stored, t, reads, decoded⟩, ?_⟩
  exact others "p.asm" "halt\n" (by decide +kernel) (by decide +kernel) fun _ => by decide +kernel

def haltTable (source : Bytes) : Bytes :=
  SymbolTable.encode { source, symbols := some [(0, 0)] }

/-- Three runs that succeed. In the first the table stands where the image should, in the second
the image where the source was, and in the third the table cannot be read, for the name of the
source is no valid text. -/
theorem files_overwritten :
    ((run ["--debug", "-o", "p.syndb", "p.asm"] [] (haltIn "p.asm")).status = 0 ∧
      (Assembly.assemble "halt\n" (some { source := "/p.asm" })).outcome = .ok [0] ∧
      (run ["--debug", "-o", "p.syndb", "p.asm"] [] (haltIn "p.asm")).files.read "p.syndb" =
        .ok (haltTable "/p.asm") ∧ ¬Image.LoadsAs (haltTable "/p.asm") [0]) ∧
      ((run ["--debug", "-o", "p.asm", "p.asm"] [] (haltIn "p.asm")).status = 0 ∧
        (haltIn "p.asm").read "p.asm" = .ok "halt\n" ∧
        (run ["--debug", "-o", "p.asm", "p.asm"] [] (haltIn "p.asm")).files.read "p.asm" =
          .ok [0, 0]) ∧
      (run ["--debug", [0xFF]] [] (haltIn [0xFF])).status = 0 ∧
        (run ["--debug", [0xFF]] [] (haltIn [0xFF])).files.read (0xFF :: ".syndb") =
          .ok (haltTable [Path.slash, 0xFF]) ∧
        SymbolTable.decode (haltTable [Path.slash, 0xFF]) = .error .invalidText := by
  refine ⟨⟨by decide +kernel, halt_outcome, by decide +kernel, fun loads => ?_⟩,
    ⟨by decide +kernel, by decide +kernel, ?_⟩, by decide +kernel, by decide +kernel, by decide +kernel⟩
  · have refused : (({} : Machine).loadImage (haltTable "/p.asm")).toOption.isNone = true := by
      decide +kernel
    obtain ⟨m, loaded, -⟩ := loads {}
    simp [loaded, Except.toOption] at refused
  · have fresh := freshTable_halt "p.asm"
      (c := { given := [("out", "p.asm"), ("debug", "true")], operands := ["p.asm"] })
      (by decide +kernel)
    rw [run_eq_store (i := ⟨"p.asm", "halt\n", some "p.asm", "p.asm"⟩) (by decide +kernel)
      (by decide +kernel) (by decide +kernel) (fresh ▸ halt_outcome), fresh]
    decide +kernel

end Command.Assembler

end WordMachine

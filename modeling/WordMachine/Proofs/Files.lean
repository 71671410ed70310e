import WordMachine.Files
import WordMachine.Proofs.Path

/-! What writing a file changes. The file reads back as it was written, and a name that leads
elsewhere leads there still and reads as before: only directories are passed on the way, and a
file that is written is none. A name with another extension leads to another file of the same
directory. -/

namespace WordMachine.Files

structure Ordinary (part : Bytes) : Prop where
  active : part ≠ [] ∧ part ≠ [Path.dot]
  down : part ≠ Path.up
  short : part.length ≤ nameLimit

/-- Where parts lead from a directory, and what is there. -/
inductive Walks (f : Files) : Place → List Bytes → Place → Option Entry → Prop
  | stay (place : Place) : Walks f place [] place (some .directory)
  | idle {start target : Place} {part : Bytes} {rest : List Bytes} {entry : Option Entry}
      (idle : part = [] ∨ part = [Path.dot]) (on : Walks f start rest target entry) :
      Walks f start (part :: rest) target entry
  | up {start target : Place} {rest : List Bytes} {entry : Option Entry}
      (on : Walks f start.dropLast rest target entry) : Walks f start (Path.up :: rest) target entry
  | enter {start target : Place} {part : Bytes} {rest : List Bytes} {entry : Option Entry}
      (ordinary : Ordinary part) (found : f.found? (start ++ [part]) = some .directory)
      (on : Walks f (start ++ [part]) rest target entry) : Walks f start (part :: rest) target entry
  | arrive {start : Place} {part : Bytes} {entry : Option Entry} (ordinary : Ordinary part)
      (found : f.found? (start ++ [part]) = entry) (last : entry ≠ some .directory) :
      Walks f start [part] (start ++ [part]) entry

section Walks

variable {f : Files} {start target place dir : Place} {parts : List Bytes} {entry : Option Entry}

theorem Ordinary.walk {part : Bytes} (ordinary : Ordinary part) (rest : List Bytes) :
    f.walk start (part :: rest) =
      match f.found? (start ++ [part]) with
      | some .directory => f.walk (start ++ [part]) rest
      | some e => if rest.isEmpty then .ok (start ++ [part], some e) else .error .notDirectory
      | none => if rest.isEmpty then .ok (start ++ [part], none) else .error .missing := by
  have active : ¬(part.isEmpty || part = [Path.dot]) = true := by simpa using ordinary.active
  have short : ¬nameLimit < part.length := Nat.not_lt.mpr ordinary.short
  exact (if_neg active).trans ((if_neg ordinary.down).trans (if_neg short))

theorem Ordinary.ends {part : Bytes} {rest : List Bytes} (ordinary : Ordinary part)
    (notDirectory : f.found? (start ++ [part]) ≠ some .directory)
    (leads : f.walk start (part :: rest) = .ok (target, entry)) :
    rest = [] ∧ start ++ [part] = target ∧ f.found? (start ++ [part]) = entry := by
  rw [ordinary.walk] at leads
  split at leads
  · next found => exact absurd found notDirectory
  all_goals
    split at leads
    · next last =>
      obtain ⟨rfl, rfl⟩ := Prod.mk.inj (Except.ok.inj leads)
      exact ⟨List.isEmpty_iff.mp last, rfl, by assumption⟩
    · simp at leads

theorem Walks.walk (walks : Walks f start parts target entry) : f.walk start parts = .ok (target, entry) := by
  induction walks with
  | stay place => rfl
  | idle idle on ih => rw [Files.walk, if_pos (by simpa using idle), ih]
  | up on ih => rw [Files.walk, if_neg (by decide), if_pos rfl, ih]
  | enter ordinary found on ih => rw [ordinary.walk, found]; exact ih
  | @arrive start part entry ordinary found last =>
    rw [ordinary.walk, found]
    obtain _ | _ | _ := entry
    · rfl
    · rfl
    · exact absurd rfl last

theorem walks_of_walk (leads : f.walk start parts = .ok (target, entry)) :
    Walks f start parts target entry := by
  -- on the parts, along the branches that a walk takes at each of them
  induction parts generalizing start with
  | nil =>
    obtain ⟨rfl, rfl⟩ := Prod.mk.inj (Except.ok.inj leads)
    exact .stay _
  | cons part rest ih =>
    by_cases idle : part = [] ∨ part = [Path.dot]
    · rw [walk, if_pos (by simpa using idle)] at leads
      exact .idle idle (ih leads)
    · by_cases up : part = Path.up
      · subst up
        rw [walk, if_neg (by decide), if_pos rfl] at leads
        exact .up (ih leads)
      · by_cases long : nameLimit < part.length
        · rw [walk, if_neg (by simpa using idle), if_neg up, if_pos long] at leads
          simp at leads
        · have ordinary : Ordinary part := ⟨not_or.mp idle, up, Nat.not_lt.mp long⟩
          by_cases found : f.found? (start ++ [part]) = some .directory
          · rw [ordinary.walk, found] at leads
            exact .enter ordinary found (ih leads)
          · obtain ⟨rfl, rfl, here⟩ := ordinary.ends found leads
            exact .arrive ordinary here (here ▸ found)

theorem walk_iff : f.walk start parts = .ok (target, entry) ↔ Walks f start parts target entry :=
  ⟨walks_of_walk, Walks.walk⟩

theorem Walks.found (walks : Walks f start parts place entry) (notDirectory : entry ≠ some .directory) :
    f.found? place = entry := by
  induction walks with
  | stay place => exact absurd rfl notDirectory
  | idle _ on ih | up on ih | enter _ _ on ih => exact ih notDirectory
  | arrive _ found _ => exact found

theorem found?_set_of_ne {other : Place} {e e' : Entry} (apart : other ≠ place)
    (found : f.found? other = some e') : (f.set place e).found? other = some e' := by
  rw [found?] at found ⊢
  rw [lookup_set_of_ne f e apart]
  cases listed : f.entries.lookup other with
  | some e'' => rwa [listed] at found
  | none =>
    rw [listed] at found
    dsimp only at found ⊢
    split at found
    · next above =>
      have workdir : (f.set place e).workdir = f.workdir := rfl
      rw [← found, if_pos]
      rw [workdir, Bool.or_eq_true, List.any_eq_true] at *
      refine above.imp_right ?_
      rintro ⟨entry, mem, leads⟩
      by_cases here : entry.1 = place
      · exact ⟨(place, e), List.mem_cons_self, here ▸ leads⟩
      · exact ⟨entry, List.mem_cons_of_mem _ (List.mem_filter.mpr ⟨mem, by simpa using here⟩), leads⟩
    · simp at found

theorem ne_of_found {other : Place} (notDirectory : f.found? place ≠ some .directory)
    (found : f.found? other = some .directory) : other ≠ place :=
  fun same => notDirectory (same ▸ found)

theorem Walks.set_of_ne {e : Entry} {contents : Bytes} (walks : Walks f start parts target (some e))
    (notDirectory : f.found? place ≠ some .directory) (apart : target ≠ place) :
    Walks (f.set place (.file contents)) start parts target (some e) := by
  generalize entry : some e = entry at walks
  induction walks with
  | stay place => exact .stay place
  | idle idle _ ih => exact .idle idle (ih apart entry)
  | up _ ih => exact .up (ih apart entry)
  | enter ordinary found _ ih =>
    exact .enter ordinary (found?_set_of_ne (ne_of_found notDirectory found) found) (ih apart entry)
  | arrive ordinary found last =>
    subst entry
    exact .arrive ordinary (found?_set_of_ne apart found) last

theorem Walks.set_self {contents : Bytes} (walks : Walks f start parts place entry)
    (notDirectory : entry ≠ some .directory) :
    Walks (f.set place (.file contents)) start parts place (some (.file contents)) := by
  have absent : f.found? place ≠ some .directory := fun found =>
    notDirectory ((walks.found notDirectory).symm.trans found)
  generalize written : place = target at walks absent
  induction walks with
  | stay place => exact absurd rfl notDirectory
  | idle idle _ ih => exact .idle idle (ih notDirectory written absent)
  | up _ ih => exact .up (ih notDirectory written absent)
  | enter ordinary found _ ih =>
    subst written
    exact .enter ordinary (found?_set_of_ne (ne_of_found absent found) found) (ih notDirectory rfl absent)
  | arrive ordinary found last =>
    subst written
    exact .arrive ordinary (found?_set ..) (by simp)

theorem Walks.snoc {dirs : List Bytes} {name : Bytes} (walks : Walks f start (dirs ++ [name]) target entry)
    (notDirectory : entry ≠ some .directory) :
    Ordinary name ∧ ∃ dir, Walks f start dirs dir (some .directory) ∧ target = dir ++ [name] := by
  induction dirs generalizing start with
  | nil =>
    cases walks with
    | idle _ on | up on | enter _ _ on =>
      cases on
      exact absurd rfl notDirectory
    | arrive ordinary found last => exact ⟨ordinary, start, .stay start, rfl⟩
  | cons part dirs ih =>
    rw [List.cons_append] at walks
    generalize tail : dirs ++ [name] = rest at walks
    cases walks with
    | idle idle on =>
      obtain ⟨ordinary, dir, walks, same⟩ := ih (tail ▸ on)
      exact ⟨ordinary, dir, .idle idle walks, same⟩
    | up on =>
      obtain ⟨ordinary, dir, walks, same⟩ := ih (tail ▸ on)
      exact ⟨ordinary, dir, .up walks, same⟩
    | enter ordinary' found on =>
      obtain ⟨ordinary, dir, walks, same⟩ := ih (tail ▸ on)
      exact ⟨ordinary, dir, .enter ordinary' found walks, same⟩
    | arrive => simp at tail

theorem Walks.append {dirs : List Bytes} (walks : Walks f start dirs dir (some .directory))
    (on : Walks f dir parts target entry) : Walks f start (dirs ++ parts) target entry := by
  generalize directory : some Entry.directory = entry' at walks
  induction walks with
  | stay place => exact on
  | idle idle _ ih => exact .idle idle (ih on directory)
  | up _ ih => exact .up (ih on directory)
  | enter ordinary found _ ih => exact .enter ordinary found (ih on directory)
  | arrive _ _ last => exact absurd directory.symm last

theorem Ordinary.leads {name : Bytes} (ordinary : Ordinary name) (f : Files) (dir : Place) :
    ∃ entry, Walks f dir [name] (dir ++ [name]) entry := by
  by_cases found : f.found? (dir ++ [name]) = some .directory
  · exact ⟨_, .enter ordinary found (.stay _)⟩
  · exact ⟨_, .arrive ordinary rfl found⟩

end Walks

/-- Where a path leads, whether or not there is anything. -/
def place? (f : Files) (path : Bytes) : Option Place := (f.resolve path).toOption.map Prod.fst

structure Proper (path : Bytes) : Prop where
  clean : path.contains 0 = false
  filled : path.isEmpty = false
  short : path.length ≤ pathLimit

def origin (f : Files) (path : Bytes) : Place := if Path.isAbsolute path then [] else f.workdir

section Paths

variable {f f' : Files} {path other contents : Bytes} {place : Place} {entry : Option Entry}

theorem resolve_iff :
    f.resolve path = .ok (place, entry) ↔
      Proper path ∧ Walks f (f.origin path) (Bytes.splitAll Path.slash path) place entry := by
  rw [← walk_iff, resolve]
  constructor
  · intro leads
    split at leads
    · simp at leads
    · next clean =>
      split at leads
      · simp at leads
      · next filled =>
        split at leads
        · simp at leads
        · next short =>
          exact ⟨⟨by simpa using clean, by simpa using filled, Nat.le_of_not_lt short⟩, leads⟩
  · rintro ⟨proper, leads⟩
    rw [proper.clean, proper.filled, if_neg (by simp), if_neg (by simp),
      if_neg (Nat.not_lt.mpr proper.short)]
    exact leads

theorem place?_eq_some_iff : f.place? path = some place ↔ ∃ entry, f.resolve path = .ok (place, entry) := by
  rw [place?]
  cases f.resolve path with
  | error fault => simp [Except.toOption]
  | ok r =>
    obtain ⟨place', entry⟩ := r
    simp [Except.toOption]

theorem read_iff : f.read path = .ok contents ↔ ∃ place, f.resolve path = .ok (place, some (.file contents)) := by
  rw [read, openEntry]
  cases f.resolve path with
  | error fault => simp
  | ok r =>
    obtain ⟨place, entry⟩ := r
    obtain _ | contents' | _ := entry <;> simp

theorem trimSlashes_of_last (open' : path.getLast? ≠ some Path.slash) : Path.trimSlashes path = path := by
  rw [Path.trimSlashes]
  obtain rfl | ⟨front, b, rfl⟩ := path.eq_nil_or_concat'
  · rfl
  · have other : b ≠ Path.slash := by simpa using open'
    simp [other]

theorem write_ok (written : f.write path contents = .ok f') :
    ∃ place entry, f.resolve path = .ok (place, entry) ∧ entry ≠ some .directory ∧
      f' = f.set place (.file contents) := by
  rw [write, create] at written
  by_cases closed : path.getLast? = some Path.slash
  · simp only [closed, ↓reduceIte] at written
    split at written <;> simp [Except.map] at written
  · simp only [trimSlashes_of_last closed, ite_self, closed, ↓reduceIte] at written
    split at written
    · simp [Except.map] at written
    · simp [Except.map] at written
    · next place entry notDirectory leads =>
      have result := Except.ok.inj written
      exact ⟨place, entry, leads, notDirectory, result.symm.trans (set_set ..)⟩

theorem read_write (written : f.write path contents = .ok f') : f'.read path = .ok contents := by
  obtain ⟨place, entry, leads, notDirectory, rfl⟩ := write_ok written
  obtain ⟨proper, walks⟩ := resolve_iff.mp leads
  exact read_iff.mpr ⟨place, resolve_iff.mpr ⟨proper, walks.set_self notDirectory⟩⟩

/-- A path that leads elsewhere leads there still, and what it leads to reads as before. -/
theorem read_write_of_ne (written : f.write path contents = .ok f') {before : Bytes}
    (reads : f.read other = .ok before) (apart : f.place? other ≠ f.place? path) :
    f'.read other = .ok before ∧ f'.place? other = f.place? other := by
  obtain ⟨place, entry, leads, notDirectory, rfl⟩ := write_ok written
  obtain ⟨place', leads'⟩ := read_iff.mp reads
  have here := place?_eq_some_iff.mpr ⟨_, leads⟩
  have there := place?_eq_some_iff.mpr ⟨_, leads'⟩
  obtain ⟨-, walks⟩ := resolve_iff.mp leads
  obtain ⟨proper, walks'⟩ := resolve_iff.mp leads'
  have absent : f.found? place ≠ some .directory := by rwa [walks.found notDirectory]
  have other' : place' ≠ place := fun same => apart (by rw [here, there, same])
  have stays : (f.set place (.file contents)).resolve other = .ok (place', some (.file before)) :=
    resolve_iff.mpr ⟨proper, walks'.set_of_ne absent other'⟩
  exact ⟨read_iff.mpr ⟨_, stays⟩, by rw [there, place?_eq_some_iff.mpr ⟨_, stays⟩]⟩

theorem resolve_snoc {front : List Bytes} {name : Bytes} (leads : f.resolve path = .ok (place, entry))
    (notDirectory : entry ≠ some .directory) (split : Bytes.splitAll Path.slash path = front ++ [name]) :
    Proper path ∧ Ordinary name ∧
      ∃ dir, Walks f (f.origin path) front dir (some .directory) ∧ place = dir ++ [name] := by
  obtain ⟨proper, walks⟩ := resolve_iff.mp leads
  rw [split] at walks
  exact ⟨proper, walks.snoc notDirectory⟩

theorem splitAll_eq (path : Bytes) :
    Bytes.splitAll Path.slash path = Path.parents path ++ [Path.lastPart path] := by
  have split := Path.splitAll_beforeLast path (Path.slash_notMem_lastPart path)
  rwa [Path.beforeLast_append_lastPart] at split

theorem Walks.unique {start dir dir' : Place} {parts : List Bytes} {entry entry' : Option Entry}
    (walks : Walks f start parts dir entry) (walks' : Walks f start parts dir' entry') : dir = dir' :=
  (Prod.mk.inj (Except.ok.inj (walks.walk.symm.trans walks'.walk))).1

section Extensions

variable {extension contents' : Bytes} {f'' : Files}

theorem slash_notMem_stem (path : Bytes) : Path.slash ∉ Path.stem path := fun inside =>
  Path.slash_notMem_lastPart path
    (Path.stem_append_extension path ▸ List.mem_append_left _ inside)

theorem splitAll_withExtension (path : Bytes) (single : Path.slash ∉ extension) :
    Bytes.splitAll Path.slash (Path.withExtension path extension) =
      Path.parents path ++ [Path.stem path ++ extension] := by
  rw [Path.withExtension_eq]
  exact Path.splitAll_beforeLast path (by simp [slash_notMem_stem, single])

theorem origin_withExtension (f : Files) (path : Bytes) (single : Path.slash ∉ extension) :
    f.origin (Path.withExtension path extension) = f.origin path := by
  have absolute := Path.isAbsolute_beforeLast path (Path.slash_notMem_lastPart path)
  rw [Path.beforeLast_append_lastPart] at absolute
  rw [origin, origin, Path.withExtension_eq,
    Path.isAbsolute_beforeLast path (by simp [slash_notMem_stem, single]), absolute]

/-- Two files are written, the second under the name of the first with another extension. They
are one file if it has that extension already, and else two. -/
theorem place?_beside (written : f.write path contents = .ok f')
    (written' : f'.write (Path.withExtension path extension) contents' = .ok f'')
    (single : Path.slash ∉ extension) :
    ∃ place place', f.place? path = some place ∧ f'.place? path = some place ∧
      f.place? (Path.withExtension path extension) = some place' ∧
      f'.place? (Path.withExtension path extension) = some place' ∧
      (place = place' ↔ Path.extension path = extension) := by
  obtain ⟨place, entry, leads, notDirectory, rfl⟩ := write_ok written
  obtain ⟨place', entry', leads', notDirectory', -⟩ := write_ok written'
  have leadsNow : (f.set place (.file contents)).resolve path = .ok (place, some (.file contents)) :=
    resolve_iff.mpr ⟨(resolve_iff.mp leads).1, (resolve_iff.mp leads).2.set_self notDirectory⟩
  obtain ⟨-, -, dir, walks, rfl⟩ := resolve_snoc leads notDirectory (splitAll_eq path)
  obtain ⟨proper, ordinary, dir', walks', rfl⟩ :=
    resolve_snoc leads' notDirectory' (splitAll_withExtension path single)
  obtain ⟨-, -, dirNow, walksNow, same⟩ := resolve_snoc leadsNow (by simp) (splitAll_eq path)
  obtain rfl : dir = dirNow := (List.append_inj' same rfl).1
  rw [origin_withExtension _ path single] at walks'
  obtain rfl : dir' = dir := walks'.unique walksNow
  obtain ⟨found, there⟩ := ordinary.leads f dir'
  have beside : f.resolve (Path.withExtension path extension) =
      .ok (dir' ++ [Path.stem path ++ extension], found) := by
    rw [resolve_iff, origin_withExtension f path single, splitAll_withExtension path single]
    exact ⟨proper, walks.append there⟩
  refine ⟨_, _, place?_eq_some_iff.mpr ⟨_, leads⟩, place?_eq_some_iff.mpr ⟨_, leadsNow⟩,
    place?_eq_some_iff.mpr ⟨_, beside⟩, place?_eq_some_iff.mpr ⟨_, leads'⟩, ?_⟩
  rw [List.append_cancel_left_eq, List.singleton_inj, ← Path.stem_append_extension path,
    List.append_cancel_left_eq]

theorem read_beside (written : f.write path contents = .ok f')
    (written' : f'.write (Path.withExtension path extension) contents' = .ok f'')
    (single : Path.slash ∉ extension) (other : Path.extension path ≠ extension) :
    f''.read path = .ok contents := by
  obtain ⟨place, place', -, here, -, there, same⟩ := place?_beside written written' single
  refine (read_write_of_ne written' (read_write written) ?_).1
  rw [here, there]
  exact fun equal => other (same.mp (Option.some.inj equal))

theorem read_apart (written : f.write path contents = .ok f')
    (written' : f'.write (Path.withExtension path extension) contents' = .ok f'')
    (single : Path.slash ∉ extension) {other before : Bytes} (reads : f.read other = .ok before)
    (apart : f.place? other ≠ f.place? path)
    (apart' : f.place? other ≠ f.place? (Path.withExtension path extension)) :
    f''.read other = .ok before := by
  obtain ⟨place, place', -, -, before', after', -⟩ := place?_beside written written' single
  obtain ⟨kept, stays⟩ := read_write_of_ne written reads apart
  refine (read_write_of_ne written' kept ?_).1
  rwa [stays, after', ← before']

end Extensions

end Paths

end WordMachine.Files

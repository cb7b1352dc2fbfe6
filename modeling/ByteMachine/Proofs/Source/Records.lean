import ByteMachine.Source.Load

/-! What the loader logs. Every record is one of its own, and the error records are the texts of
the diagnostics in their order; so a program that loads has left no error record. -/
namespace ByteMachine.Source

variable {size : Nat}

namespace Progress

/-- The records of the error level. -/
def errorRecords (progress : Progress size) : List Record :=
  progress.records.toList.filter (·.level == .error)

/-- The records tell of the diagnostics, of all of them and of nothing else as errors. -/
structure Reported (progress : Progress size) : Prop where
  origin : ∀ entry ∈ progress.records.toList, entry.origin = .loader
  errors : progress.errorRecords =
    progress.diagnostics.toList.map fun diagnostic => record .error diagnostic.text

theorem reported_start (memory : Memory size) : (start memory).Reported where
  origin := List.forall_mem_nil _
  errors := rfl

section Line

variable {draft : Draft size} {diagnostics : Array Diagnostic} {records : Array Record}

theorem Reported.note (reported : Reported ⟨draft, diagnostics, records⟩) {entries : List Record}
    (debug : ∀ entry ∈ entries, entry.origin = .loader ∧ entry.level = .debug)
    (after : Draft size) : Reported ⟨after, diagnostics, records ++ entries⟩ := by
  obtain ⟨origin, errors⟩ := reported
  constructor
  · simp only [Array.toList_appendList, List.forall_mem_append]
    exact ⟨origin, fun entry listed => (debug entry listed).1⟩
  · have silent : entries.filter (·.level == .error) = [] := by
      rw [List.filter_eq_nil_iff]
      intro entry listed
      simp [(debug entry listed).2]
    simp only [errorRecords, Array.toList_appendList, List.filter_append, silent, List.append_nil]
    exact errors

theorem Reported.push (reported : Reported ⟨draft, diagnostics, records⟩) (diagnostic : Diagnostic)
    (after : Draft size) :
    Reported ⟨after, diagnostics.push diagnostic,
      records.push (record .error diagnostic.text)⟩ := by
  obtain ⟨origin, errors⟩ := reported
  constructor
  · simp only [Array.toList_push, List.forall_mem_append, List.forall_mem_singleton]
    exact ⟨origin, rfl⟩
  · simp only [errorRecords, Array.toList_push, List.filter_append, List.map_append]
    exact congrArg (· ++ _) errors

end Line

theorem debug_notes (size : Nat) (statement : Statement) (number : Nat) :
    ∀ entry ∈ (statement.notes size).map fun note =>
      record .debug ("[" ++ toString number ++ "] " ++ note),
      entry.origin = .loader ∧ entry.level = .debug :=
  List.forall_mem_map.mpr fun _ _ => ⟨rfl, rfl⟩

theorem reported_line {progress : Progress size} (reported : progress.Reported) (number : Nat)
    (raw : List Char) : (progress.line number raw).Reported := by
  obtain ⟨draft, diagnostics, records⟩ := progress
  have debug := debug_notes size (Statement.ofLine raw) number
  unfold line
  cases ended : Load.statement (Statement.ofLine raw) draft with
  | ok _ after => simpa only [ended] using reported.note debug after
  | error problem after =>
    simpa only [ended] using (reported.note debug after).push ⟨number, problem⟩ after

/-- Every record is of the debug level or an error. -/
def Levelled (progress : Progress size) : Prop :=
  ∀ entry ∈ progress.records.toList, entry.level = .debug ∨ entry.level = .error

theorem levelled_start (memory : Memory size) : (start memory).Levelled :=
  List.forall_mem_nil _

theorem levelled_line {progress : Progress size} (levelled : progress.Levelled) (number : Nat)
    (raw : List Char) : (progress.line number raw).Levelled := by
  obtain ⟨draft, diagnostics, records⟩ := progress
  have noted : ∀ entry ∈ (records ++ ((Statement.ofLine raw).notes size).map fun note =>
      record .debug ("[" ++ toString number ++ "] " ++ note)).toList,
      entry.level = .debug ∨ entry.level = .error := by
    rw [Array.toList_appendList, List.forall_mem_append]
    exact ⟨levelled, fun entry listed => .inl (debug_notes size _ number entry listed).2⟩
  unfold line
  cases ended : Load.statement (Statement.ofLine raw) draft with
  | ok _ after => simpa only [Levelled, ended] using noted
  | error problem after =>
    simp only [Levelled, ended, Array.toList_push, List.forall_mem_append]
    exact ⟨noted, List.forall_mem_singleton.mpr (.inr rfl)⟩

end Progress

theorem load_reported (memory : Memory size) (text : List Char) : (load memory text).Reported :=
  load_induction (Progress.reported_start memory)
    (fun _ number raw kept => Progress.reported_line kept number raw) text

/-- A program that loads has logged no error. -/
theorem level_of_loaded {memory result : Memory size} {text : List Char}
    (loaded : (load memory text).result = .ok result) :
    ∀ entry ∈ (load memory text).records.toList, entry.level ≠ .error := by
  intro entry listed level
  have empty : (load memory text).diagnostics.toList = [] := by
    unfold Progress.result at loaded
    split at loaded
    · rename_i none
      simpa using none
    · contradiction
  have reported := (load_reported memory text).errors
  rw [empty, List.map_nil, Progress.errorRecords, List.filter_eq_nil_iff] at reported
  exact reported entry listed (by simpa using level)

/-- The loader logs what it reads for those who ask for it, and its diagnostics as errors. -/
theorem level_of_load (memory : Memory size) (text : List Char) :
    ∀ entry ∈ (load memory text).records.toList, entry.level = .debug ∨ entry.level = .error :=
  load_induction (Progress.levelled_start memory)
    (fun _ number raw kept => Progress.levelled_line kept number raw) text

theorem debug_of_loaded {memory result : Memory size} {text : List Char}
    (loaded : (load memory text).result = .ok result) :
    ∀ entry ∈ (load memory text).records.toList, entry.level = .debug := by
  intro entry listed
  exact (level_of_load memory text entry listed).resolve_right (level_of_loaded loaded entry listed)

end ByteMachine.Source

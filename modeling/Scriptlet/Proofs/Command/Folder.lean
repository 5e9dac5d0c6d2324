import Scriptlet.Command.Folder

/-!
Contract: the command reads the source that its arguments name, and nothing else.

Owns:
- what arguments ask for when a file is named after them;
- the command depends on what one source holds;
- the paths under which a folder gives a text, and the one file that a path looks at;
- running the command on a file is running it on the text of that file.
-/

namespace Scriptlet

/-! ## Arguments -/

namespace Invocation

/-- A file named after other arguments is what is read, in place of standard input. -/
theorem ofArgumentsFrom_append_path {limits asked : Limits} {arguments : List String}
    {path : String} (isPath : path ≠ "--max-steps")
    (given : ofArgumentsFrom limits arguments = .ok ⟨asked, .standardInput⟩) :
    ofArgumentsFrom limits (arguments ++ [path]) = .ok ⟨asked, .file path⟩ := by
  induction limits, arguments using ofArgumentsFrom.induct with
  | case1 limits =>
      cases given
      simp [ofArgumentsFrom]
  | case2 => simp [ofArgumentsFrom] at given
  | case3 limits text rest cause failed => simp [ofArgumentsFrom, failed] at given
  | case4 limits text rest budget parsed inductionHypothesis =>
      simp only [ofArgumentsFrom, parsed] at given
      simpa only [List.cons_append, ofArgumentsFrom, parsed] using inductionHypothesis given
  | case5 limits other isOther =>
      rw [ofArgumentsFrom] at given
      · cases given
      · exact isOther
  | case6 limits arguments =>
      rw [ofArgumentsFrom] at given
      · cases given
      all_goals assumption

end Invocation

namespace Command

/-- The command looks only at what the source holds that its arguments name. -/
theorem run_eq_of_agree {arguments : List String}
    {read other : InputSource → Except ReadError String} {random : RandomSource}
    (agree : ∀ invocation, Invocation.ofArguments arguments = .ok invocation →
      read invocation.source = other invocation.source) :
    run arguments read random = run arguments other random := by
  unfold run
  cases given : Invocation.ofArguments arguments with
  | error failure => rfl
  | ok invocation =>
      show CommandResult.ofState (invocation.execute random (read invocation.source)) =
        CommandResult.ofState (invocation.execute random (other invocation.source))
      rw [agree invocation given]

end Command

/-! ## Folders -/

namespace Folder

variable {folder other : Folder} {path name text : String}

/-- A path is read the same way in folders that agree on the file which it looks at. -/
theorem read_eq_of_agree
    (agree : ∀ step ∈ (pathSteps path).head?, folder[step]? = other[step]?) :
    folder.read path = other.read path := by
  unfold read
  cases steps : pathSteps path with
  | nil => rfl
  | cons step rest =>
      rw [steps] at agree
      simp only [agree step rfl]

/-- A file with another name does not matter. -/
theorem read_insert_of_ne (isOther : name ∉ (pathSteps path).head?) :
    read (folder.insert name text) path = folder.read path := by
  apply read_eq_of_agree
  intro step isFirst
  rw [Std.ExtTreeMap.getElem?_insert, if_neg]
  intro same
  rw [Std.LawfulEqCmp.compare_eq_iff_eq] at same
  exact isOther (same ▸ isFirst)

/-- A path gives a text exactly if its one step is the name of a file with that text, and
neither its start nor its end tells otherwise. -/
theorem read_eq_ok_iff :
    folder.read path = .ok text ↔ ∃ name, pathSteps path = [name] ∧ name ≠ ".." ∧
      path.startsWith "/" = false ∧ namesDirectory path = false ∧ folder[name]? = some text := by
  constructor
  · fun_cases read folder path with
    | case6 _ step rest steps notUp relative held found plain =>
        rintro ⟨⟩
        rw [Bool.and_eq_true, List.isEmpty_iff, Bool.not_eq_true'] at plain
        obtain ⟨rfl, notDirectory⟩ := plain
        rw [Bool.not_eq_true] at relative
        refine ⟨step, steps, ?_, relative, notDirectory, found⟩
        rintro rfl
        exact notUp rfl
    | _ => nofun
  · rintro ⟨name, steps, notUp, relative, notDirectory, found⟩
    have notEmpty : path ≠ "" := by
      rintro rfl
      cases steps
    rw [read, if_neg notEmpty]
    simp [steps, notUp, relative, notDirectory, found]

/-- Whether a text can be the name of a file: it has no slash, and does not stand for a
folder. -/
structure IsFileName (name : String) : Prop where
  noSlash : '/' ∉ name.toList
  notEmpty : name ≠ ""
  notHere : name ≠ "."
  notUp : name ≠ ".."

theorem IsFileName.pathSteps (isName : IsFileName name) : pathSteps name = [name] := by
  rw [Folder.pathSteps, List.splitOn_eq_singleton isName.noSlash]
  simp [isName.notEmpty, isName.notHere]

/-- What stands under the name of a file is read. -/
theorem IsFileName.read (isName : IsFileName name) (found : folder[name]? = some text) :
    folder.read name = .ok text := by
  have noSlashAt : ∀ {part : List Char}, '/' ∈ part → ¬ part <+: name.toList ∧
      ¬ part <:+ name.toList := fun slash =>
    ⟨fun isStart => isName.noSlash (isStart.subset slash),
      fun isEnd => isName.noSlash (isEnd.subset slash)⟩
  refine read_eq_ok_iff.mpr ⟨name, isName.pathSteps, isName.notUp, ?_, ?_, found⟩
  · rw [String.startsWith_string_eq_false_iff]
    exact (noSlashAt (by decide)).1
  · rw [namesDirectory, Bool.or_eq_false_iff, String.endsWith_eq_endsWith_toSlice,
      String.endsWith_eq_endsWith_toSlice, String.Slice.endsWith_string_eq_false_iff,
      String.Slice.endsWith_string_eq_false_iff, String.copy_toSlice]
    exact ⟨(noSlashAt (by decide)).2, (noSlashAt (by decide)).2⟩

end Folder

/-! ## The command in a folder -/

namespace Command

variable {folder : Folder} {arguments : List String} {random : RandomSource}

/-- A file that the arguments do not lead to does not matter to the command. -/
theorem run_insert_of_ne {input : Except ReadError String} {name text : String}
    (isOther : ∀ limits path, Invocation.ofArguments arguments = .ok ⟨limits, .file path⟩ →
      name ∉ (Folder.pathSteps path).head?) :
    run arguments (Folder.readSource (folder.insert name text) input) random =
      run arguments (folder.readSource input) random := by
  apply run_eq_of_agree
  rintro ⟨limits, source⟩ given
  cases source with
  | standardInput => rfl
  | file path => exact Folder.read_insert_of_ne (isOther limits path given)

/-- Running the command on a file is running it on the text of the file. -/
theorem run_append_fileName {asked : Limits} {input : Except ReadError String}
    {name text : String}
    (given : Invocation.ofArguments arguments = .ok ⟨asked, .standardInput⟩)
    (isName : Folder.IsFileName name) (isPath : name ≠ "--max-steps")
    (found : folder[name]? = some text) :
    run (arguments ++ [name]) (folder.readSource input) random =
      run arguments (folder.readSource (.ok text)) random := by
  have named : Invocation.ofArguments (arguments ++ [name]) = .ok ⟨asked, .file name⟩ :=
    Invocation.ofArgumentsFrom_append_path isPath given
  have reads : folder.readSource input (.file name) = .ok text := isName.read found
  rw [run, run, given, named]
  show CommandResult.ofState
      (Invocation.execute ⟨asked, .file name⟩ random (folder.readSource input (.file name))) =
    CommandResult.ofState (Invocation.execute ⟨asked, .standardInput⟩ random (.ok text))
  rw [reads]
  rfl

end Command

end Scriptlet

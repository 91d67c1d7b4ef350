import AgenticPlatform.FilePaths

/-!
# The coder's answer

The JSON object of an answer is validated against `CoderOutput`, whose configuration
strips white space from every text, and becomes a `CodeDraft`. Which characters count as
white space there is left open: `blank` says so.
-/

namespace AgenticPlatform

open LinkedTree

/-! ### The schema layer -/

/-- `str_strip_whitespace`: blanks are taken off both ends. -/
def stripped (blank : Char → Bool) (text : String) : String :=
  String.ofList ((text.toList.dropWhile blank).reverse.dropWhile blank).reverse

/-- A value, or the issues found: where, and what. -/
abbrev Checked (α : Type) := Except (List (String × String)) α

namespace Checked

variable {α β : Type}

/-- Issues on both sides are all reported. -/
def ap : Checked (α → β) → Checked α → Checked β
  | .ok f, .ok a => .ok (f a)
  | .ok _, .error issues => .error issues
  | .error issues, .ok _ => .error issues
  | .error issues, .error more => .error (issues ++ more)

def required (check : String → PyValue → Checked α) (loc : String) : Option PyValue → Checked α
  | none => .error [(loc, "Field required")]
  | some value => check loc value

def optional (check : String → PyValue → Checked α) (default : α) (loc : String) :
    Option PyValue → Checked α
  | none => .ok default
  | some value => check loc value

def nullable (check : String → PyValue → Checked α) (loc : String) : PyValue → Checked (Option α)
  | .none => .ok none
  | value => (check loc value).map some

def items (check : String → PyValue → Checked α) (loc : String) : Nat → List PyValue → Checked (List α)
  | _, [] => .ok []
  | i, value :: rest =>
    ap (ap (.ok List.cons) (check (loc ++ "." ++ toString i) value)) (items check loc (i + 1) rest)

def list (check : String → PyValue → Checked α) (loc : String) : PyValue → Checked (List α)
  | .list values => items check loc 0 values
  | _ => .error [(loc, "Input should be a valid list")]

def text (blank : Char → Bool) (loc : String) : PyValue → Checked String
  | .str value => .ok (stripped blank value)
  | _ => .error [(loc, "Input should be a valid string")]

/-- `min_length=1`, after stripping. -/
def someText (blank : Char → Bool) (loc : String) (value : PyValue) :
    Checked { value : String // value ≠ "" } :=
  match text blank loc value with
  | .error issues => .error issues
  | .ok value =>
    if h : value = "" then .error [(loc, "String should have at least 1 character")] else .ok ⟨value, h⟩

@[simp] theorem ap_ok (f : α → β) (a : α) : ap (.ok f) (.ok a) = .ok (f a) := rfl

end Checked

/-! ### The models -/

/-- `not PurePosixPath(path).is_absolute() and ".." not in parts`. -/
def staysInside (path : String) : Bool :=
  !(PosixPath.parse path).isAbsolute && decide (.up ∉ (PosixPath.parse path).parts)

/-- One file written in full; the checks of its path are the proof fields. -/
structure FileEdit where
  path : String
  content : String
  path_nonempty : path ≠ ""
  path_inside : staysInside path = true

structure CoderOutput where
  taskKey : Option String
  summary : { summary : String // summary ≠ "" }
  files : List FileEdit
  diff : String
  filesChanged : List String
  commandsRun : List String
  uncertainties : List String

namespace CoderOutput

open Checked

/-- `_stays_inside_the_workspace`. -/
def insidePath (blank : Char → Bool) (loc : String) (value : PyValue) :
    Checked { path : String // path ≠ "" ∧ staysInside path = true } :=
  match someText blank loc value with
  | .error issues => .error issues
  | .ok ⟨path, hpath⟩ =>
    if h : staysInside path = true then .ok ⟨path, hpath, h⟩
    else .error [(loc, "Value error, path must be relative and stay inside the workspace: " ++ quoted path)]

def fileEdit (blank : Char → Bool) (loc : String) : PyValue → Checked FileEdit
  | .dict payload =>
    ap (ap (.ok fun path content => ⟨path.1, content, path.2.1, path.2.2⟩)
      (required (insidePath blank) (loc ++ ".path") (List.lookup "path" payload)))
      (required (text blank) (loc ++ ".content") (List.lookup "content" payload))
  | _ => .error [(loc, "Input should be a valid dictionary or instance of FileEdit")]

/-- `re.search(r"^@@ .+ @@", value, re.MULTILINE)`. -/
def hasHunkHeader (value : String) : Bool :=
  (value.toList.splitOn '\n').any fun line =>
    decide ("@@ ".toList <+: line) && decide (" @@".toList <:+: line.drop 4)

def looksLikeUnifiedDiff (value : String) : Bool :=
  isBlank value || decide ("diff --git ".toList <:+: value.toList) || hasHunkHeader value

/-- `_looks_like_a_unified_diff`. -/
def unifiedDiff (blank : Char → Bool) (loc : String) (value : PyValue) : Checked String :=
  match text blank loc value with
  | .error issues => .error issues
  | .ok value =>
    if looksLikeUnifiedDiff value then .ok value
    else .error [(loc,
      "Value error, diff must be a unified diff containing 'diff --git' or '@@' hunk headers")]

/-- The fields, each with its own checks. -/
def fields (blank : Char → Bool) (payload : Mapping) : Checked CoderOutput :=
  let texts := optional (Checked.list (text blank)) []
  ap (ap (ap (ap (ap (ap (ap (.ok CoderOutput.mk)
    (optional (nullable (text blank)) none "task_key" (List.lookup "task_key" payload)))
    (required (someText blank) "summary" (List.lookup "summary" payload)))
    (optional (Checked.list (fileEdit blank)) [] "files" (List.lookup "files" payload)))
    (optional (unifiedDiff blank) "" "diff" (List.lookup "diff" payload)))
    (texts "files_changed" (List.lookup "files_changed" payload)))
    (texts "commands_run" (List.lookup "commands_run" payload)))
    (texts "uncertainties" (List.lookup "uncertainties" payload))

/-- `CoderOutput.model_validate(payload)`: the fields, then `_expresses_a_change`. -/
def modelValidate (blank : Char → Bool) (payload : Mapping) : Checked CoderOutput :=
  match fields blank payload with
  | .error issues => .error issues
  | .ok output =>
    if output.files.isEmpty ∧ isBlank output.diff then
      .error [("", "Value error, answer with 'files': [\x7b'path': ..., 'content': ...\x7d] " ++
        "containing the full new content of each file you change")]
    else .ok output

end CoderOutput

/-! ### The draft -/

structure FileWrite where
  path : String
  content : String
  path_nonblank : isBlank path = false

structure CodeDraft where
  summary : String
  diff : String
  files : List FileWrite
  uncertainties : List String

/-- `entries[key] = value`: a key keeps its place. -/
def setItem (entries : List (String × String)) (key value : String) : List (String × String) :=
  if entries.any (·.1 = key) then entries.map fun entry => if entry.1 = key then (key, value) else entry
  else entries ++ [(key, value)]

/-- `{f.path: f.content for f in draft.files}`. -/
def CodeDraft.contents (draft : CodeDraft) : List (String × String) :=
  draft.files.foldl (fun entries write => setItem entries write.path write.content) []

/-- `_render_validation_error`. -/
def renderValidationError (issues : List (String × String)) : String :=
  String.intercalate "\n" (issues.map fun issue =>
    "- " ++ (if issue.1 = "" then "<root>" else issue.1) ++ ": " ++ issue.2)

/-- `StructuredOutputParser(CoderOutput).parse`, from the object that is extracted. -/
def parseCoderOutput (blank : Char → Bool) (extracted : Option Mapping) : Except PyError CoderOutput :=
  match extracted with
  | none => .error (.structuredOutput "no JSON object could be extracted from the model answer")
  | some payload =>
    match CoderOutput.modelValidate blank payload with
    | .error issues => .error (.structuredOutput (renderValidationError issues))
    | .ok output => .ok output

def fileWrites : List FileEdit → Except PyError (List FileWrite)
  | [] => .ok []
  | file :: rest =>
    if h : isBlank file.path = false then do
      let files ← fileWrites rest
      pure (⟨file.path, file.content, h⟩ :: files)
    else .error (.valueError "a file write needs a path")

/-- `StructuredOutputCodec.parse_code`. -/
def parseCode (blank : Char → Bool) (extracted : Option Mapping) : Except PyError CodeDraft := do
  let output ← parseCoderOutput blank extracted
  let files ← fileWrites output.files
  pure ⟨output.summary, output.diff, files, output.uncertainties⟩

/-! ### An answer that carries files -/

/-- What a coder may answer, before anything is stripped: files whose paths have no blanks
    around them and do not lie in one another, and whatever contents. -/
structure CoderAnswer (blank : Char → Bool) where
  taskKey : Option String
  summary : String
  files : List FileEdit
  diff : String
  filesChanged : List String
  commandsRun : List String
  uncertainties : List String
  summary_given : stripped blank summary ≠ ""
  diff_shaped : CoderOutput.looksLikeUnifiedDiff (stripped blank diff) = true
  changes : files ≠ [] ∨ isBlank (stripped blank diff) = false
  paths_trimmed : ∀ file ∈ files, stripped blank file.path = file.path ∧ isBlank file.path = false
  paths_apart : files.Pairwise fun first second =>
    ¬ (PosixPath.parse first.path).parts <+: (PosixPath.parse second.path).parts ∧
    ¬ (PosixPath.parse second.path).parts <+: (PosixPath.parse first.path).parts

namespace CoderAnswer

def fileJson (file : FileEdit) : PyValue := .dict [("path", .str file.path), ("content", .str file.content)]

def textsJson (texts : List String) : PyValue := .list (texts.map .str)

/-- The object that the answer is serialised to. -/
def asJson {blank : Char → Bool} (answer : CoderAnswer blank) : Mapping :=
  [("task_key", (answer.taskKey.map PyValue.str).getD .none),
   ("summary", .str answer.summary),
   ("files", .list (answer.files.map fileJson)),
   ("diff", .str answer.diff),
   ("files_changed", textsJson answer.filesChanged),
   ("commands_run", textsJson answer.commandsRun),
   ("uncertainties", textsJson answer.uncertainties)]

variable {blank : Char → Bool} {files : List FileEdit} {loc : String} {i : Nat}

open Checked CoderOutput

/-- What validation leaves of a file. -/
def trimmed (blank : Char → Bool) (file : FileEdit) : FileEdit :=
  { file with content := stripped blank file.content }

theorem fileEdit_fileJson {file : FileEdit} (h : stripped blank file.path = file.path) :
    fileEdit blank loc (fileJson file) = .ok (trimmed blank file) := by
  have hpath : insidePath blank (loc ++ ".path") (.str file.path) =
      .ok ⟨file.path, file.path_nonempty, file.path_inside⟩ := by
    simp only [insidePath, someText, text, h, dif_neg file.path_nonempty, dif_pos file.path_inside]
  have hkey : (List.lookup "path" [("path", PyValue.str file.path), ("content", .str file.content)]) =
      some (.str file.path) := rfl
  have hcontent : (List.lookup "content" [("path", PyValue.str file.path), ("content", .str file.content)]) =
      some (.str file.content) := rfl
  simp only [fileEdit, fileJson, hkey, hcontent, required, hpath, text, ap_ok, trimmed]

theorem items_fileJson (h : ∀ file ∈ files, stripped blank file.path = file.path) :
    items (fileEdit blank) loc i (files.map fileJson) = .ok (files.map (trimmed blank)) := by
  induction files generalizing i with
  | nil => rfl
  | cons file rest ih =>
    rw [List.forall_mem_cons] at h
    simp only [List.map_cons, items, fileEdit_fileJson h.1, ih h.2, ap_ok]

theorem items_textsJson {texts : List String} :
    items (text blank) loc i (texts.map .str) = .ok (texts.map (stripped blank)) := by
  induction texts generalizing i with
  | nil => rfl
  | cons value rest ih => simp only [List.map_cons, items, text, ih, ap_ok]

variable (answer : CoderAnswer blank)

/-- Validation accepts the answer, and strips every text in it. -/
theorem modelValidate_asJson :
    modelValidate blank answer.asJson = .ok
      { taskKey := answer.taskKey.map (stripped blank)
        summary := ⟨stripped blank answer.summary, answer.summary_given⟩
        files := answer.files.map (trimmed blank)
        diff := stripped blank answer.diff
        filesChanged := answer.filesChanged.map (stripped blank)
        commandsRun := answer.commandsRun.map (stripped blank)
        uncertainties := answer.uncertainties.map (stripped blank) } := by
  have hfiles : list (fileEdit blank) "files" (.list (answer.files.map fileJson)) =
      .ok (answer.files.map (trimmed blank)) :=
    items_fileJson fun file hfile => (answer.paths_trimmed file hfile).1
  have htexts : ∀ loc texts, list (text blank) loc (textsJson texts) = .ok (texts.map (stripped blank)) :=
    fun loc texts => items_textsJson
  have hsummary : someText blank "summary" (.str answer.summary) =
      .ok ⟨stripped blank answer.summary, answer.summary_given⟩ := by
    simp only [someText, text, dif_neg answer.summary_given]
  have hdiff : unifiedDiff blank "diff" (.str answer.diff) = .ok (stripped blank answer.diff) := by
    simp only [unifiedDiff, text, if_pos answer.diff_shaped]
  have hkey : nullable (text blank) "task_key" ((answer.taskKey.map PyValue.str).getD .none) =
      .ok (answer.taskKey.map (stripped blank)) := by
    rcases answer.taskKey with - | key <;> rfl
  have hfields : fields blank answer.asJson = .ok
      ⟨answer.taskKey.map (stripped blank), ⟨stripped blank answer.summary, answer.summary_given⟩,
        answer.files.map (trimmed blank), stripped blank answer.diff,
        answer.filesChanged.map (stripped blank), answer.commandsRun.map (stripped blank),
        answer.uncertainties.map (stripped blank)⟩ := by
    simp [fields, asJson, List.lookup_cons, Checked.optional, required, hkey, hsummary, hfiles, hdiff, htexts]
  rw [modelValidate, hfields]
  simp only
  rw [if_neg]
  rintro ⟨hempty, hblank⟩
  rcases answer.changes with hfiles | hdiff
  · exact hfiles (by simpa using hempty)
  · rw [hblank] at hdiff
    cases hdiff

theorem foldl_setItem {writes : List FileWrite} {entries : List (String × String)}
    (hkeys : ((entries.map Prod.fst) ++ writes.map FileWrite.path).Nodup) :
    writes.foldl (fun entries write => setItem entries write.path write.content) entries =
      entries ++ writes.map fun write => (write.path, write.content) := by
  induction writes generalizing entries with
  | nil => simp
  | cons write rest ih =>
    have hfresh : ¬ entries.any (·.1 = write.path) = true := by
      rw [List.any_eq_true]
      rintro ⟨entry, hentry, hsame⟩
      have hdisjoint := (List.nodup_append.mp hkeys).2.2
      exact hdisjoint _ (List.mem_map_of_mem hentry) _ (List.mem_map_of_mem List.mem_cons_self)
        (of_decide_eq_true hsame)
    rw [List.foldl_cons, setItem, if_neg hfresh, ih, List.append_assoc, List.map_cons,
      List.singleton_append]
    simpa using hkeys

/-- With distinct paths the dictionary is the list of the files. -/
theorem contents_of_nodup {draft : CodeDraft} (h : (draft.files.map FileWrite.path).Nodup) :
    draft.contents = draft.files.map fun write => (write.path, write.content) :=
  foldl_setItem h

theorem fileWrites_eq (h : ∀ file ∈ files, isBlank file.path = false) :
    ∃ writes, fileWrites files = .ok writes ∧
      writes.map (fun write => (write.path, write.content)) =
        files.map fun file => (file.path, file.content) := by
  induction files with
  | nil => exact ⟨[], rfl, rfl⟩
  | cons file rest ih =>
    rw [List.forall_mem_cons] at h
    rcases ih h.2 with ⟨writes, hwrites, hmap⟩
    refine ⟨⟨file.path, file.content, h.1⟩ :: writes, ?_, ?_⟩
    · simp only [fileWrites, dif_pos h.1, hwrites, ok_bind, pure_eq_ok]
    · rw [List.map_cons, List.map_cons, hmap]

theorem paths_nodup : (answer.files.map FileEdit.path).Nodup := by
  rw [List.Nodup, List.pairwise_map]
  refine answer.paths_apart.imp ?_
  intro first second hapart hsame
  rw [hsame] at hapart
  exact hapart.1 (List.prefix_refl _)

/-- The draft of the answer asks for its files, with their contents stripped. -/
theorem parseCode_asJson : ∃ draft, parseCode blank (some answer.asJson) = .ok draft ∧
    draft.contents = answer.files.map fun file => (file.path, stripped blank file.content) := by
  have hnonblank : ∀ file ∈ answer.files.map (trimmed blank), isBlank file.path = false := by
    intro file hfile
    rcases List.mem_map.mp hfile with ⟨given, hgiven, rfl⟩
    exact (answer.paths_trimmed given hgiven).2
  rcases fileWrites_eq hnonblank with ⟨writes, hwrites, hmap⟩
  rw [List.map_map] at hmap
  refine ⟨⟨stripped blank answer.summary, stripped blank answer.diff, writes,
    answer.uncertainties.map (stripped blank)⟩, ?_, ?_⟩
  · simp only [parseCode, parseCoderOutput, modelValidate_asJson, ok_bind, hwrites, pure_eq_ok]
  · have hpaths : writes.map FileWrite.path = answer.files.map FileEdit.path := by
      have hfirst := congrArg (List.map Prod.fst) hmap
      rw [List.map_map, List.map_map] at hfirst
      exact hfirst
    rw [contents_of_nodup (by rw [hpaths]; exact answer.paths_nodup)]
    exact hmap

end CoderAnswer

end AgenticPlatform

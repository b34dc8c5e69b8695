import Mathlib.Data.List.TakeDrop
import Sqf.CommandLine.Folder
import Sqf.CommandLine.Outcome
import Sqf.Proofs.Diagnostic.Report

/-!
# The command line agrees with the checks

An invocation that names files prints what the check of each file finds, one file after the
other, and its exit code says whether there was an error (`outcome_agrees`). So it shows
neither more nor less than what `checkSource` and `Config.parse` give for the files. JSON that is
asked for can be read back, so that what it shows does not depend on how it is laid out. Which
arguments are such an invocation is said by `NamesFiles`, and `Options.read_eq_ok_iff` shows
that there are no others. The extension of a file, which tells configs from scripts, stands
behind the last dot of its name (`extension?_of_dot`).
-/

namespace Sqf.CommandLine

/-! ## Arguments -/

/-- Arguments that name files, and may ask for JSON. -/
inductive NamesFiles : List String → List String → Bool → Prop
  | nil : NamesFiles [] [] false
  | file {name : String} {arguments files : List String} {json : Bool} :
      Argument.ofText name = .plain → name ≠ "" → NamesFiles arguments files json →
      NamesFiles (name :: arguments) (name :: files) json
  | json {arguments files : List String} :
      NamesFiles arguments files false → NamesFiles ("--json" :: arguments) files true
  | endOfOptions {files : List String} :
      (∀ name ∈ files, name ≠ "") → NamesFiles ("--" :: files) files false

namespace Argument

/-- An option without a value is its name behind two dashes. -/
theorem eq_of_ofText_long {argument name : String} (h : ofText argument = .long name none) :
    argument = "--" ++ name := by
  unfold ofText at h
  split at h
  · cases h
  · next rest _ hlist =>
    simp only [long.injEq] at h
    obtain ⟨hname, hattached⟩ := h
    split at hattached
    · cases hattached
    · next hdrop =>
      have hrest := List.takeWhile_append_dropWhile (p := (· != '=')) (l := rest)
      rw [hdrop, List.append_nil] at hrest
      rw [hrest] at hname
      rw [← String.toList_inj, hlist, ← hname]
      simp
  · cases h
  · cases h

theorem eq_of_ofText_endOfOptions {argument : String} (h : ofText argument = .endOfOptions) :
    argument = "--" := by
  unfold ofText at h
  split at h
  · next hlist => exact String.toList_inj.1 hlist
  · cases h
  · cases h
  · cases h

end Argument

namespace Options

theorem addFile_eq_ok_iff {name : String} {o o' : Options} :
    o.addFile name = .ok o' ↔ name ≠ "" ∧ o' = { o with files := o.files ++ [name] } := by
  unfold addFile
  split
  · next hname => simp [String.isEmpty_iff.1 hname]
  · next hname =>
    have hne : name ≠ "" := by simpa using hname
    rw [Except.ok.injEq, eq_comm]
    exact (and_iff_right hne).symm

theorem foldlM_addFile_eq_ok_iff {names : List String} {o o' : Options} :
    names.foldlM addFile o = .ok o' ↔
      (∀ name ∈ names, name ≠ "") ∧ o' = { o with files := o.files ++ names } := by
  induction names generalizing o with
  | nil => simp [pure, Except.pure, eq_comm]
  | cons name names ih =>
    rw [List.foldlM_cons, List.forall_mem_cons]
    constructor
    · intro h
      obtain ⟨o'', hname, hnames⟩ := exists_of_bind_ok h
      obtain ⟨hne, rfl⟩ := addFile_eq_ok_iff.1 hname
      obtain ⟨hnes, rfl⟩ := ih.1 hnames
      exact ⟨⟨hne, hnes⟩, by simp⟩
    · rintro ⟨⟨hne, hnes⟩, rfl⟩
      rw [addFile_eq_ok_iff.2 ⟨hne, rfl⟩]
      exact ih.2 ⟨hnes, by simp⟩

/-- The files are those that are named, behind the ones that have been read. JSON may be asked for
once. -/
theorem readFrom_of_namesFiles {arguments files : List String} {json : Bool} {o : Options}
    (h : NamesFiles arguments files json) (ho : o.json = false ∨ json = false) :
    o.readFrom arguments = .ok { o with files := o.files ++ files, json := o.json || json } := by
  induction h generalizing o with
  | nil => simp [readFrom.eq_1]
  | @file name _ _ _ hplain hname _ ih =>
    rw [readFrom, hplain]
    simp only [addFile_eq_ok_iff.2 ⟨hname, rfl⟩]
    exact (ih (o := { o with files := o.files ++ [name] }) ho).trans (by simp)
  | json _ ih =>
    have ho : o.json = false := by simpa using ho
    have hset : o.setFlag "json" = .ok { o with json := true } := by simp [setFlag, ho]
    rw [readFrom, show Argument.ofText "--json" = .long "json" none by decide]
    simp only [show takesValue "json" = false by decide, hset]
    exact (ih (.inr rfl)).trans (by simp)
  | endOfOptions hfiles =>
    rw [readFrom, show Argument.ofText "--" = .endOfOptions by decide]
    simp only [foldlM_addFile_eq_ok_iff.2 ⟨hfiles, rfl⟩, Bool.or_false]

/-! ### No other arguments ask for this -/

/-- A flag that is set asks for JSON, for the first time, or for warnings. -/
theorem setFlag_ok {name : String} {o o' : Options} (h : o.setFlag name = .ok o') :
    name = "json" ∧ o.json = false ∧ o' = { o with json := true } ∨ o'.warnUndefined = true := by
  unfold setFlag at h
  split at h
  · split at h
    · cases h
    · next hjson => exact .inl ⟨rfl, by simpa using hjson, (Except.ok.inj h).symm⟩
  · split at h
    · cases h
    · cases h
      exact .inr rfl
  · cases h
  · cases h

theorem setValue_ok {name value : String} {o o' : Options} (h : o.setValue name value = .ok o') :
    ¬ (o'.commands = none ∧ o'.header = none) := by
  unfold setValue at h
  split at h
  · cases h
  split at h
  · split at h
    · cases h
    · cases h
      simp
  · split at h
    · cases h
    · cases h
      simp
  · cases h

/-- Arguments that are read without the other options name files. -/
theorem namesFiles_of_readFrom {arguments : List String} {o o' : Options}
    (h : o.readFrom arguments = .ok o') (hvalues : o'.commands = none ∧ o'.header = none)
    (hwarn : o'.warnUndefined = false) :
    ∃ files json, NamesFiles arguments files json ∧ (o.json = false ∨ json = false) ∧
      o' = { o with files := o.files ++ files, json := o.json || json } := by
  fun_induction readFrom o arguments with
  | case1 o =>
    cases h
    exact ⟨[], false, .nil, .inr rfl, by simp⟩
  | case2 o name rest hname ih =>
    obtain ⟨o'', hadd, hrest⟩ := exists_of_bind_ok h
    obtain ⟨hne, rfl⟩ := addFile_eq_ok_iff.1 hadd
    obtain ⟨files, json, hnames, hjson, rfl⟩ := ih _ hrest
    exact ⟨name :: files, json, .file hname hne hnames, hjson, by simp⟩
  | case3 o argument rest hargument =>
    obtain ⟨hne, rfl⟩ := foldlM_addFile_eq_ok_iff.1 h
    rw [Argument.eq_of_ofText_endOfOptions hargument]
    exact ⟨rest, false, .endOfOptions hne, .inr rfl, by simp⟩
  | case4 _ _ _ _ _ _ _ ih | case7 _ _ _ _ _ _ _ _ ih =>
    obtain ⟨o'', hset, hrest⟩ := exists_of_bind_ok h
    obtain ⟨files, json, _, _, rfl⟩ := ih _ hrest
    exact (setValue_ok hset hvalues).elim
  | case10 o argument rest name hargument _ ih =>
    obtain ⟨o'', hset, hrest⟩ := exists_of_bind_ok h
    obtain ⟨files, json, hnames, hjson, rfl⟩ := ih _ hrest
    rcases setFlag_ok hset with ⟨rfl, hnone, rfl⟩ | hset
    · obtain rfl : json = false := by simpa using hjson
      rw [Argument.eq_of_ofText_long hargument]
      exact ⟨files, true, .json hnames, .inl hnone, by simp⟩
    · rw [show o''.warnUndefined = false from hwarn] at hset
      cases hset
  | _ => cases h

/-- What is read of arguments is a list of files and perhaps the wish for JSON if and only if they
name these files and ask for no more. -/
theorem read_eq_ok_iff {arguments files : List String} {json : Bool} :
    read arguments = .ok { files, json } ↔ NamesFiles arguments files json ∧ files ≠ [] := by
  constructor
  · intro h
    obtain ⟨o, hread, h⟩ := exists_of_bind_ok h
    split at h
    · cases h
    · next hfiles =>
      obtain rfl := Except.ok.inj h
      obtain ⟨names, asked, hnames, _, heq⟩ := namesFiles_of_readFrom hread ⟨rfl, rfl⟩ rfl
      obtain ⟨rfl, rfl⟩ : files = names ∧ json = asked := by simpa using heq
      exact ⟨hnames, by simpa using hfiles⟩
  · rintro ⟨hnames, hfiles⟩
    have hread : ({} : Options).readFrom arguments = .ok { files, json } := by
      simpa using readFrom_of_namesFiles (o := {}) hnames (.inl rfl)
    simp [read, hread, hfiles, bind, Except.bind]

end Options

/-! ## Extensions -/

/-- The name of a file stands behind the last slash. -/
theorem exists_splitOn_slash {folder name : List Char}
    (hfolder : ∀ c ∈ folder.getLast?, c = '/') (hname : '/' ∉ name) :
    ∃ names, (folder ++ name).splitOn '/' = names ++ [name] := by
  have hwhole : name.splitOn '/' = [name] :=
    List.splitOnP_eq_singleton fun c hc => beq_eq_false_iff_ne.2 (ne_of_mem_of_not_mem hc hname)
  rcases List.eq_nil_or_concat folder with rfl | ⟨front, c, rfl⟩
  · exact ⟨[], hwhole⟩
  · obtain rfl : c = '/' := hfolder c (by simp)
    refine ⟨front.splitOn '/', ?_⟩
    rw [← hwhole, List.concat_eq_append, List.append_assoc, List.singleton_append]
    exact List.splitOnP_append_cons front name (beq_self_eq_true '/')

/-- The extension of a file stands behind the last dot of its name, if there is something before
the dot. -/
theorem extension?_of_dot {folder stem extension : List Char}
    (hfolder : ∀ c ∈ folder.getLast?, c = '/') (hslash : '/' ∉ stem ++ '.' :: extension)
    (hstem : stem ≠ []) (hdot : '.' ∉ extension) (hdots : stem ++ '.' :: extension ≠ ['.', '.']) :
    extension? (.ofList (folder ++ (stem ++ '.' :: extension))) = some (.ofList extension) := by
  obtain ⟨names, hnames⟩ := exists_splitOn_slash hfolder hslash
  have hreverse : (stem ++ '.' :: extension).reverse =
      extension.reverse ++ '.' :: stem.reverse := by simp
  have hbefore : ∀ c ∈ extension.reverse, (c != '.') = true := by
    intro c hc
    rw [List.mem_reverse] at hc
    exact bne_iff_ne.2 (ne_of_mem_of_not_mem hc hdot)
  have hspan : (stem ++ '.' :: extension).reverse.span (· != '.') =
      (extension.reverse, '.' :: stem.reverse) := by
    rw [hreverse, List.span_eq_takeWhile_dropWhile, List.takeWhile_append_of_pos hbefore,
      List.dropWhile_append_of_pos hbefore]
    simp
  obtain ⟨c, cs, hc⟩ := List.exists_cons_of_ne_nil (List.reverse_ne_nil_iff.2 hstem)
  rw [hc] at hspan
  have hlast : ((names ++ [stem ++ '.' :: extension]).filter
      fun n => n != [] && n != ['.']).getLast? = some (stem ++ '.' :: extension) := by
    have hone : stem ++ '.' :: extension ≠ ['.'] := by
      obtain ⟨d, ds, rfl⟩ := List.exists_cons_of_ne_nil hstem
      simp
    simp [List.filter_append, hone]
  unfold extension?
  simp only [String.toList_ofList, hnames, hlast, Option.getD_some, hspan, if_neg hdots,
    List.reverse_reverse]

theorem isConfig_eq (path : String) :
    isConfig path = decide (extension? path ∈ [some "hpp", some "ext", some "cpp", some "h"]) := by
  cases h : extension? path with
  | none => simp [isConfig, h]
  | some extension => simp [isConfig, h]

/-! ## What is found -/

/-- A file that is checked. -/
structure Input where
  path : String
  source : String

namespace Input

/-- What the checks find in a file when they are left to themselves: those of configs if the
extension says that it is one, else those of scripts, with the bundled commands. -/
def found (f : Input) : List Diagnostic :=
  if extension? f.path ∈ [some "hpp", some "ext", some "cpp", some "h"] then
    (Config.parse f.source).diagnostics
  else checkSource .bundled {} f.source

/-- What is found, as it is shown to a reader. -/
def rendered (f : Input) : List String :=
  f.found.map fun d => d.render f.path f.source ++ "\n"

/-- What is found, as JSON. -/
def reports (f : Input) : List Json :=
  f.found.map fun d => .obj [
    ("file", .str f.path),
    ("kind", d.cause.toJson),
    ("message", .str d.message),
    ("severity", .str d.severity.name),
    ("span", .obj [("end", .nat d.span.stop), ("start", .nat d.span.start)])]

/-- What is found, with the file it is found in. -/
def listed (f : Input) : List (String × Diagnostic) :=
  f.found.map fun d => (f.path, d)

theorem reports_eq (f : Input) : f.reports = f.listed.map fun (path, d) => d.toJson path := by
  simp [reports, listed, Diagnostic.toJson_eq]

end Input

/-- The command line has its own way from a text to the diagnostics, and it leads to the same. -/
theorem checkFile_eq_found (f : Input) :
    checkFile .bundled {} f.path f.source = f.found := by
  simp only [checkFile, isConfig_eq, decide_eq_true_eq, Input.found, checkSource, parseSource]

/-! ## What is printed -/

namespace Progress

theorem print_eq (s : Progress) (path source : String) (found : List Diagnostic) :
    s.print path source found =
      { s with printed :=
          s.printed ++ String.join (found.map fun d => d.render path source ++ "\n") } := by
  induction found generalizing s with
  | nil => simp [print]
  | cons d found ih => simp [print, ih, String.append_assoc]

/-- The progress that comes with files whose check is complete. -/
def after (json : Bool) (files : List Input) : Progress where
  hasErrors := files.any fun f => f.found.any (·.severity == .error)
  printed := if json then "" else String.join (files.flatMap Input.rendered)
  reports := if json then files.flatMap Input.reports else []

theorem add_after (json : Bool) (files : List Input) (f : Input) :
    (after json files).add json f.path f.source f.found = after json (files ++ [f]) := by
  cases json with
  | true => simp [add, keep, after, Input.reports, Diagnostic.toJson_eq]
  | false => simp [add, print_eq, after, Input.rendered]

end Progress

/-- The run invariant: behind the files that have been checked stands their progress. -/
theorem checkFiles_after (json : Bool) {read? : FileReader} (checked files : List Input)
    (h : ∀ f ∈ files, read? f.path = some f.source) :
    checkFiles json .bundled {} read? (.after json checked) (files.map (·.path)) =
      (.after json (checked ++ files), none) := by
  induction files generalizing checked with
  | nil => simp [checkFiles]
  | cons f files ih =>
    obtain ⟨hread, hfiles⟩ := List.forall_mem_cons.1 h
    rw [List.map_cons, checkFiles, hread]
    simp only [checkFile_eq_found, Progress.add_after, ih _ hfiles, List.append_assoc,
      List.singleton_append]

/-- Reports in print say of which diagnostics they are, and in which files. -/
theorem read?_pretty_reports {listed found : List (String × Diagnostic)} :
    Json.read? ((Json.array (found.map fun (path, d) => d.toJson path)).pretty ++ "\n") =
      some (.array (listed.map fun (path, d) => d.toJson path)) ↔ listed = found := by
  have hprintable : (Json.array (found.map fun (path, d) => d.toJson path)).Printable := by
    refine .array fun report hreport => ?_
    obtain ⟨⟨path, d⟩, -, rfl⟩ := List.mem_map.1 hreport
    exact d.printable_toJson path
  have hinjective : Function.Injective fun ((path, d) : String × Diagnostic) => d.toJson path := by
    rintro ⟨path, d⟩ ⟨path', d'⟩ h
    obtain ⟨rfl, rfl⟩ := Diagnostic.toJson_inj.1 h
    rfl
  rw [Json.read?_pretty hprintable rfl, Option.some.injEq, Json.array.injEq,
    (List.map_injective_iff.2 hinjective).eq_iff, eq_comm]

/-- An invocation that names files and at most asks for JSON shows what the checks find in them, one
file after the other, and nothing else. The exit code says whether there is an error. Whoever reads
the JSON that is printed finds in it these diagnostics, in this order, and could not take it for a
list of others. -/
theorem outcome_agrees {arguments : List String} {files : List Input} {json : Bool}
    {read? : FileReader} (harguments : NamesFiles arguments (files.map (·.path)) json)
    (hfiles : files ≠ []) (hread : ∀ f ∈ files, read? f.path = some f.source) :
    outcome arguments read? =
      { exitCode := if ∃ f ∈ files, ∃ d ∈ f.found, d.severity = .error then 1 else 0
        printed :=
          if json then (Json.array (files.flatMap Input.reports)).pretty ++ "\n"
          else String.join (files.flatMap Input.rendered)
        complaint := none } ∧
    (json = true → ∀ listed : List (String × Diagnostic),
      Json.read? (outcome arguments read?).printed =
        some (.array (listed.map fun (path, d) => d.toJson path)) ↔
      listed = files.flatMap Input.listed) := by
  have hoptions := Options.read_eq_ok_iff.2 ⟨harguments, by simpa using hfiles⟩
  have hrun : checkFiles json .bundled {} read? {} (files.map (·.path)) =
      (.after json files, none) := by
    simpa [Progress.after] using checkFiles_after json [] files hread
  have herrors : (Progress.after json files).hasErrors = true ↔
      ∃ f ∈ files, ∃ d ∈ f.found, d.severity = .error := by
    simp [Progress.after]
  have hreports : files.flatMap Input.reports =
      (files.flatMap Input.listed).map fun (path, d) => d.toJson path := by
    simp only [List.map_flatMap, ← Input.reports_eq]
  simp only [outcome, hoptions, Options.run, Options.table, Options.settings, hrun, herrors]
  constructor
  · cases json <;> simp [Progress.after]
  · rintro rfl listed
    rw [← read?_pretty_reports, ← hreports]
    simp [Progress.after]

/-- A script and a config that is cut off. -/
def mixedFiles : List Input := [⟨"a.sqf", "hint 1"⟩, ⟨"b.hpp", "class A \x7b"⟩]

/-- The files as they lie in a folder. -/
def mixedFolder : FileReader := (Folder.ofFiles (mixedFiles.map fun f => (f.path, f.source))).read?

theorem outcome_agrees_mixed :
    outcome ["a.sqf", "--json", "b.hpp"] mixedFolder =
      { exitCode := 1
        printed := (Json.array (mixedFiles.flatMap Input.reports)).pretty ++ "\n" } ∧
    Json.read? (outcome ["a.sqf", "--json", "b.hpp"] mixedFolder).printed =
      some (.array ((mixedFiles.flatMap Input.listed).map fun (path, d) => d.toJson path)) := by
  have harguments : NamesFiles ["a.sqf", "--json", "b.hpp"] (mixedFiles.map (·.path)) true :=
    .file (by decide) (by decide) (.json (.file (by decide) (by decide) .nil))
  have hread : ∀ f ∈ mixedFiles, mixedFolder f.path = some f.source := by decide +kernel
  have herror : ∃ f ∈ mixedFiles, ∃ d ∈ f.found, d.severity = .error :=
    ⟨⟨"b.hpp", "class A \x7b"⟩, by simp [mixedFiles], by decide +kernel⟩
  obtain ⟨houtcome, hprinted⟩ := outcome_agrees harguments (by decide) hread
  exact ⟨by rw [houtcome, if_pos herror, if_pos rfl], (hprinted rfl _).2 rfl⟩

end Sqf.CommandLine

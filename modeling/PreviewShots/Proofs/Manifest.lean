import PreviewShots.Proofs.Dependence
import PreviewShots.Proofs.Generation
import PreviewShots.Proofs.WriteOnce

/-!
# The manifest

An output depends on the file it is from, and on the classes that the annotations of its
functions lead to: where both are the same in two tables, rounds with them write the same text
(`Session.same_content`). Only the file is listed in the manifest, so that a default that changes
in another file leaves an output out of date (`Session.themed_stale`).
-/

open PreviewShots.Task

namespace PreviewShots

variable {table other : SymbolTable} {config : Config} {directory : Path}

namespace SourceFile

/-- The keys that the annotations of the functions of the file lead to. -/
inductive LeadsTo (table : SymbolTable) (file : SourceFile) : Key → Prop
  | annotated {function : FunctionDecl} {a : Annotation} : function ∈ file.functions →
      a ∈ function.annotations → LeadsTo table file a.typeName.key
  | onward {key next : Key} : LeadsTo table file key → Marker.Edge table key next →
      LeadsTo table file next

/-- The tables hold the same classes where the file leads to, and write the annotations of its
parameters with the same names. -/
structure IsSeenAlike (file : SourceFile) (table other : SymbolTable) : Prop where
  agree : SymbolTable.AgreeOn (file.LeadsTo table) table other
  named : ∀ function ∈ file.functions, ∀ parameter ∈ function.parameters,
    ∀ a ∈ parameter.annotations, Synthesis.typeName? other a = Synthesis.typeName? table a

theorem IsSeenAlike.sees {file : SourceFile} (h : file.IsSeenAlike table other) :
    file.Sees (file.LeadsTo table) table other :=
  ⟨h.agree, .onward, fun _ hf _ ha => .annotated hf ha, h.named⟩

end SourceFile

namespace Session

variable {world world' second second' : World} {deferred deferred' : List FunctionDecl}
  {after after' : Session} {output : Output}

/-- Rounds of fresh sessions with two tables write the same text to an output that both list with
the same sources, if the tables have the same entries for these sources, and agree on the classes
to which the annotations in them lead. -/
theorem same_content
    (h : Ends (round table) (fresh directory config) world deferred after world')
    (h' : Ends (round other) (fresh directory config) second deferred' after' second')
    (ho : output ∈ after.units.outputs.created) (ho' : output ∈ after'.units.outputs.created)
    (hentries : ∀ file ∈ table.files, file.path ∈ output.sources →
      ∀ file' ∈ other.files, file'.path = file.path → file' = file)
    (hseen : ∀ file ∈ table.files, file.path ∈ output.sources → file.IsSeenAlike table other) :
    ∃ text bytes, Plan.Generates table config directory output text ∧
      Plan.Generates other config directory output text ∧ text.utf8? = some bytes ∧
      (after.IsUndisturbed world.files.working output →
        world'.files.read? output.path = some bytes) ∧
      (after'.IsUndisturbed second.files.working output →
        second'.files.read? output.path = some bytes) := by
  obtain ⟨text, hg⟩ := (mem_created_iff h).mp ho
  obtain ⟨text', hg'⟩ := (mem_created_iff h').mp ho'
  -- both texts are of one file, which is the same for both tables
  have htext : text' = text := by
    obtain ⟨files, hfiles, ⟨key, file⟩, hs, rfl, rfl⟩ := hg
    obtain ⟨files', hfiles', ⟨key', file'⟩, hs', houtput, rfl⟩ := hg'
    obtain ⟨hm, hkey⟩ := Plan.of_mem_sources hs
    obtain ⟨hm', hkey'⟩ := Plan.of_mem_sources hs'
    have hfile := SymbolTable.mem_of_newFiles? hfiles (Plan.mem_of_mem_accepted hm)
    have hfile' := SymbolTable.mem_of_newFiles? hfiles' (Plan.mem_of_mem_accepted hm')
    have hlisted : file.path ∈ (Plan.output directory (key, file)).sources :=
      List.mem_singleton_self _
    have hpath : file'.path = file.path := by
      simpa [Plan.output] using congrArg Output.sources houtput
    obtain rfl : file' = file := hentries file hfile hlisted file' hfile' hpath
    have hsees := (hseen file' hfile hlisted).sees
    obtain rfl : key' = key := Option.some.inj (hkey'.symm.trans (hsees.unitKey?_eq.trans hkey))
    exact hsees.unitText_eq key'
  obtain rfl := htext
  obtain ⟨bytes, hbytes, hread⟩ := read?_of_generates h hg
  obtain ⟨_, hbytes', hread'⟩ := read?_of_generates h' hg'
  obtain rfl := Option.some.inj (hbytes.symm.trans hbytes')
  exact ⟨text', bytes, hg, hg', hbytes, hread, hread'⟩

/-- A file with a function that has the marker, dark. -/
def themedCard : SourceFile :=
  ⟨.string "Cards.kt", .string "app", .kotlin, [.function ⟨.string "Card", .string "app", .isPublic,
    [.make (.string "app.Themed") .null [⟨.string "dark", .other (.bool true) (.string "true")⟩] none],
    [], none, .kotlin, true, .string "Cards.kt"⟩]⟩

/-- A file with a marker that has a default. -/
def themes (dark : Bool) : SourceFile :=
  ⟨.string "Themes.kt", .string "app", .kotlin, [.ofClass ⟨.string "app.Themed", .annotationClass,
    [.ofName "Preview"], [⟨.string "dark", ⟨.string "kotlin.Boolean", [], false, false⟩, [],
      some (.other (.bool dark) (.string (if dark then "true" else "false")))⟩], .kotlin,
    .string "Themes.kt"⟩]⟩

/-- Both of these files, and more. -/
def themed (dark : Bool) (more : List SourceFile) : SymbolTable :=
  ⟨themedCard :: themes dark :: more, [], none⟩

section

variable {dark : Bool} {more : List SourceFile} {path : Path}

/-- If nothing else has a test, there is one output and its source is the file of the function. -/
theorem mem_created_themed
    (hmore : ∀ file ∈ more, ∀ function ∈ file.functions, function.isPrivate = true)
    (h : Ends (round (themed dark more)) (fresh directory config) world deferred after world')
    (hpaths : after.units.outputs.created.map (·.path) = [path]) :
    ⟨path, .bool false, [.string "Cards.kt"]⟩ ∈ after.units.outputs.created := by
  obtain ⟨output, hcreated, rfl⟩ := List.map_eq_singleton_iff.mp hpaths
  obtain ⟨_, _, hfiles, ⟨key, file⟩, hs, rfl, -⟩ :=
    (mem_created_iff h).mp (hcreated ▸ List.mem_singleton_self _)
  obtain rfl := Option.some.inj hfiles
  obtain ⟨hm, hkey⟩ := Plan.of_mem_sources hs
  obtain ⟨function, hf, ⟨-, -, hpublic, -⟩, -⟩ :=
    Round.exists_unitKey?_iff (r := .first (themed dark more) config) |>.mp ⟨key, hkey⟩
  rcases List.mem_cons.mp (Plan.mem_of_mem_accepted hm) with rfl | hm
  · rw [hcreated]
    exact List.mem_singleton_self _
  rcases List.mem_cons.mp hm with rfl | hm
  · cases hf
  · simp [hmore file hm function hf] at hpublic

/-- Of the sources of that output there is one entry. -/
theorem eq_of_mem_themed {file : SourceFile} (hmore : ∀ file ∈ more, file.path ≠ .string "Cards.kt")
    (hm : file ∈ (themed dark more).files) (hpath : file.path = .string "Cards.kt") :
    file = themedCard := by
  rcases List.mem_cons.mp hm with rfl | hm
  · rfl
  rcases List.mem_cons.mp hm with rfl | hm
  · exact absurd (Json.string.inj hpath) (by decide)
  · exact absurd hpath (hmore file hm)

end

theorem isUndisturbed_of_singleton {output : Output} {working : Location}
    (hpaths : after.units.outputs.created.map (·.path) = [output.path])
    (hreport : after.report.path.place working ≠ output.path.place working) :
    after.IsUndisturbed working output :=
  ⟨fun _ ho _ => List.mem_singleton.mp (hpaths ▸ List.mem_map_of_mem ho), hreport⟩

/-- A round with an empty tree that ends, with one output that is not where the report is. -/
theorem exists_ends_at (table : SymbolTable) (config : Config) (directory path : Path)
    (hrun : let run : (Except Fault (List FunctionDecl) × Session) × World :=
        (round table : Task (StateM World) _ _) (fresh directory config) (.ofFiles .empty)
      run.1.1.isOk = true ∧ run.1.2.units.outputs.created.map (·.path) = [path] ∧
        run.1.2.report.path.place FileTree.home ≠ path.place FileTree.home) :
    ∃ deferred after world',
      Ends (round table) (fresh directory config) (.ofFiles .empty) deferred after world' ∧
      after.units.outputs.created.map (·.path) = [path] ∧
      after.report.path.place FileTree.home ≠ path.place FileTree.home := by
  obtain ⟨hok, hpaths, hreport⟩ := hrun
  obtain ⟨deferred, after, world', h⟩ := exists_ends _ _ _ hok
  obtain rfl := show _ = after from congrArg (·.1.2) h
  exact ⟨deferred, _, world', h, hpaths, hreport⟩

/-- One output of two tables, of which one has a violation more. -/
theorem themed_same :
    let config : Config := { preview := .string "Preview" }
    let directory := Path.parse "out"
    let empty := World.ofFiles .empty
    let table := themed true []
    let other := themed true [⟨.string "Hidden.kt", .string "app", .kotlin,
      [previewed "Hidden" .isPrivate none]⟩]
    ∃ output text bytes deferred after world' deferred' after' second',
      Ends (round table) (fresh directory config) empty deferred after world' ∧
      Ends (round other) (fresh directory config) empty deferred' after' second' ∧
      Plan.Generates table config directory output text ∧
      Plan.Generates other config directory output text ∧ text.utf8? = some bytes ∧
      world'.files.read? output.path = some bytes ∧ second'.files.read? output.path = some bytes := by
  intro config directory empty table other
  let output : Output :=
    ⟨Path.parse "out/app/CardsScreenshotTest.kt", .bool false, [.string "Cards.kt"]⟩
  obtain ⟨deferred, after, world', h, hpaths, hreport⟩ :=
    exists_ends_at table config directory output.path (by decide +kernel)
  obtain ⟨deferred', after', second', h', hpaths', hreport'⟩ :=
    exists_ends_at other config directory output.path (by decide +kernel)
  have hsame : themedCard.IsSeenAlike table other := by
    refine ⟨⟨fun _ _ => rfl, fun _ _ => Iff.rfl⟩, fun function hf parameter hp => ?_⟩
    obtain rfl := List.mem_singleton.mp hf
    cases hp
  have hlisted : ∀ file ∈ table.files, file.path ∈ output.sources → file = themedCard :=
    fun file hm hpath => eq_of_mem_themed (by simp) hm (List.mem_singleton.mp hpath)
  have hother : ∀ file ∈ other.files, file.path ∈ output.sources → file = themedCard := by
    have hname : Text.ofString "Hidden.kt" ≠ "Cards.kt" := by decide
    exact fun file hm hpath =>
      eq_of_mem_themed (by simpa using hname) hm (List.mem_singleton.mp hpath)
  obtain ⟨text, bytes, hg, hg', hbytes, hread, hread'⟩ := same_content h h'
    (mem_created_themed (by simp) h hpaths)
    (mem_created_themed (by simp [SourceFile.functions, previewed, Declaration.function?,
      FunctionDecl.isPrivate]) h' hpaths')
    (fun file hm hpath file' hm' he =>
      (hother file' hm' (he ▸ hpath)).trans (hlisted file hm hpath).symm)
    fun file hm hpath => hlisted file hm hpath ▸ hsame
  exact ⟨output, text, bytes, _, after, world', _, after', second', h, h', hg, hg', hbytes,
    hread (isUndisturbed_of_singleton hpaths hreport),
    hread' (isUndisturbed_of_singleton hpaths' hreport')⟩

/-- An output whose source stays the same, and that is written otherwise once the default of a
marker is another one. -/
theorem themed_stale :
    let config : Config := { preview := .string "Preview" }
    let directory := Path.parse "out"
    let empty := World.ofFiles .empty
    ∃ output deferred after world' deferred' after' second',
      Ends (round (themed true [])) (fresh directory config) empty deferred after world' ∧
      Ends (round (themed false [])) (fresh directory config) empty deferred' after' second' ∧
      output ∈ after.units.outputs.created ∧ output ∈ after'.units.outputs.created ∧
      (∀ file ∈ (themed true []).files, file.path ∈ output.sources →
        ∀ file' ∈ (themed false []).files, file'.path = file.path → file' = file) ∧
      world'.files.read? output.path ≠ second'.files.read? output.path := by
  intro config directory empty
  let path := Path.parse "out/app/CardsScreenshotTest.kt"
  obtain ⟨_, after, world', h, hpaths, -⟩ :=
    exists_ends_at (themed true []) config directory path (by decide +kernel)
  obtain ⟨_, after', second', h', hpaths', -⟩ :=
    exists_ends_at (themed false []) config directory path (by decide +kernel)
  refine ⟨_, _, after, world', _, after', second', h, h', mem_created_themed (by simp) h hpaths,
    mem_created_themed (by simp) h' hpaths', fun file hfile hlisted file' hfile' hsame => ?_,
    fun hread => ?_⟩
  · replace hlisted := List.mem_singleton.mp hlisted
    rw [eq_of_mem_themed (by simp) hfile hlisted,
      eq_of_mem_themed (by simp) hfile' (hsame.trans hlisted)]
  · -- bytes are compared as a list, which the kernel is quick at
    replace hread := congrArg (Option.map fun bytes : ByteArray => bytes.data.toList) hread
    rw [← show _ = world' from congrArg Prod.snd h, ← show _ = second' from congrArg Prod.snd h']
      at hread
    exact absurd hread (by decide +kernel)

end Session

end PreviewShots

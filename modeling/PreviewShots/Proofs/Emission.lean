import PreviewShots.Proofs.Faults
import PreviewShots.Proofs.UnitPath
import PreviewShots.Proofs.UnitWriter
import Mathlib.Data.List.Nodup

/-!
# Emissions

A writer goes from unit to unit. The outputs that it keeps are those of the units whose files
it has opened, in their order, and its names are those of the units that it has written to
the end. A unit is passed over by its name, and units of different names have different
paths, so that a path is asked for twice only if its unit broke off. Of a unit whose file was
not opened nothing is kept. What was written stays, as long as no two names stand for the
same bytes.
-/

open PreviewShots.Task

namespace PreviewShots

variable {world world' : World} {fault : Fault}

-- ---------------------------------------------------------------------------
-- Units that are not written
-- ---------------------------------------------------------------------------

/-- What a path that no file comes to leaves behind: directories at most. -/
inductive FileTree.Tried (path : Path) (tree : FileTree) : FileTree → Prop
  | untouched : Tried path tree tree
  | made : Tried path tree (tree.makeDirectories path.parent).1

theorem FileTree.Tried.extends {path : Path} {tree tree' : FileTree} (h : Tried path tree tree') :
    tree.Extends tree' := by
  cases h with
  | untouched => exact .refl tree
  | made => exact extends_makeDirectories tree path.parent

theorem FileTree.tried_of_made {path : Path} {tree files : FileTree} {made : Bool}
    (h : tree.makeDirectories path.parent = (files, made)) : Tried path tree files := by
  have hmade : Tried path tree (tree.makeDirectories path.parent).1 := .made
  rwa [h] at hmade

/-- What keeps a file from a path. -/
def Path.Bars (path : Path) (fault : Fault) : Prop :=
  pathFault? path.parent = some fault ∨ pathFault? path = some fault ∨ fault = .fileSystem

/-- A file that was opened and did not get its text: the text has no form in UTF-8, or the
writing of it breaks off. -/
def FileTree.Broke (path : Path) (content : Text) (fault : Fault) (tree tree' : FileTree) :
    Prop :=
  ∃ part location, tree.Placed path part location tree' ∧
    (content.isEncodable = false ∧ fault = .notEncodable ∨
      content.isEncodable = true ∧ fault = .fileSystem ∧
        (tree.breaks? location (content.utf8?.getD .empty)).isSome = true)

/-- What a fault leaves of a text that was to be put in place. -/
theorem broke_of_fails_fill {σ : Type} {state state' : σ} {path : Path} {content : Text}
    {tree made : FileTree} (hmade : tree.makeDirectories path.parent = (made, true))
    (hopened : made.opened? path = some world.files)
    (h : Fails (fill path content) state world fault state' world') :
    state' = state ∧ tree.Broke path content fault world'.files := by
  obtain ⟨rfl, ⟨htext, rfl, rfl⟩ | ⟨htext, rfl, files, hfiles, rfl⟩⟩ := fails_fill.mp h
  · obtain ⟨location, hlocate, hd, hfiles⟩ := FileTree.opened?_eq_some.mp hopened
    exact ⟨rfl, _, location, hfiles ▸ FileTree.placed_of_set hmade hlocate hd _,
      .inl ⟨htext, rfl⟩⟩
  · obtain ⟨part, location, hplaced, hbreaks⟩ := FileTree.placed_of_fill hmade hopened hfiles
    exact ⟨rfl, part, location, hplaced, .inr ⟨htext, rfl, hbreaks⟩⟩

theorem Outputs.fails_create {output : Output} {content : Text} {outputs outputs' : Outputs}
    (h : Fails (Outputs.create output content) outputs world fault outputs' world') :
    outputs' = outputs ∧ (outputs.has output.path = true ∧
        fault = .alreadyCreated output.path.toText ∧ world'.files = world.files ∨
      outputs.has output.path = false ∧ output.path.Bars fault ∧
        world.files.Tried output.path world'.files) ∨
    outputs' = outputs.add output ∧ outputs.has output.path = false ∧
      pathFault? output.path = none ∧
      world.files.Broke output.path content fault world'.files := by
  simp only [Outputs.create, fails_bind, fails_get, false_or, ends_get] at h
  obtain ⟨_, _, _, ⟨rfl, rfl, rfl⟩, h⟩ := h
  split at h
  · next hhas =>
    rcases fails_bind.mp h with hthrow | ⟨_, _, _, hends, -⟩
    · obtain ⟨rfl, rfl, rfl⟩ := fails_throw.mp hthrow
      exact .inl ⟨rfl, .inl ⟨hhas, rfl, rfl⟩⟩
    · exact absurd hends ends_throw
  next hfree =>
  replace hfree := Bool.eq_false_iff.mpr hfree
  rcases fails_bind.mp h with hmake | ⟨_, _, _, hmake, h⟩
  · obtain ⟨rfl, hbar⟩ := fails_makeDirectories hmake
    refine .inl ⟨rfl, .inr ⟨hfree, ?_⟩⟩
    rcases hbar with ⟨hpath, rfl⟩ | ⟨-, rfl, files, hfiles, rfl⟩
    · exact ⟨.inl hpath, .untouched⟩
    · exact ⟨.inr (.inr rfl), FileTree.tried_of_made hfiles⟩
  obtain ⟨-, rfl, made, hmade, rfl⟩ := ends_makeDirectories.mp hmake
  rcases fails_bind.mp h with hopen | ⟨_, _, _, hopen, h⟩
  · obtain ⟨rfl, rfl, hbar⟩ := fails_openFile hopen
    exact .inl ⟨rfl, .inr ⟨hfree, .inr (hbar.imp_right (·.2.1)), FileTree.tried_of_made hmade⟩⟩
  obtain ⟨hpath, rfl, opened, hopened, rfl⟩ := ends_openFile.mp hopen
  simp only [fails_bind, fails_modify, false_or, ends_modify] at h
  obtain ⟨_, _, _, ⟨rfl, rfl⟩, hfill⟩ := h
  obtain ⟨rfl, hbroke⟩ := broke_of_fails_fill hmade hopened hfill
  exact .inr ⟨rfl, hfree, hpath, hbroke⟩

-- ---------------------------------------------------------------------------
-- The units of a session
-- ---------------------------------------------------------------------------

/-- A unit, and the path of the source file it is from. -/
structure Emission where
  source : Label
  key : UnitKey

/-- What is kept of it: it depends on that source file and on no other. -/
def Emission.output (directory : Path) (emission : Emission) : Output :=
  ⟨Plan.unitPath directory emission.key, .bool false, [emission.source]⟩

/-- A unit whose file was opened, and whether all of its text was written there. -/
structure Opening extends Emission where
  whole : Bool

/-- Tests of functions in packages that are directories. -/
def ArePackaged (fragments : List Fragment) : Prop :=
  ∀ fragment ∈ fragments, fragment.package.IsPackage

namespace UnitWriter

variable {writer writer' : UnitWriter} {source : Label} {fragments : List Fragment}
  {written : Option UnitKey} {openings : List Opening} {directory : Path} {suffix : Text}

/-- The path that a unit is written to. -/
theorem pathFor_eq {outputs : Outputs} {key : UnitKey} {package : Text}
    (h : packageName? key.package = some package) :
    outputs.pathFor package key.file "kt" = Plan.unitPath outputs.directory key := by
  simp [Plan.unitPath, h, Outputs.pathFor, Outputs.packageDirectory, Outputs.ofDirectory]

/-- The unit that the tests of a source file are to become. -/
structure Asks (writer : UnitWriter) (source : Label) (fragments : List Fragment)
    (key : UnitKey) : Prop where
  names : ∃ first file, fragments.head? = some first ∧ source.text? = some file ∧
    key = writer.keyFor file first
  free : key.qualifiedName ∉ writer.written

/-- The writer with the unit among its outputs. -/
def keeping (writer : UnitWriter) (source : Label) (key : UnitKey) : UnitWriter :=
  { writer with
    outputs := writer.outputs.add (Emission.output writer.outputs.directory ⟨source, key⟩) }

/-- What a fault leaves of a unit. Only of one whose file was opened anything is kept. -/
inductive Missed (writer : UnitWriter) (source : Label) (fragments : List Fragment)
    (tree : FileTree) : Fault → UnitWriter → FileTree → Prop
  | illTyped : Missed writer source fragments tree .illTyped writer tree
  | taken {key : UnitKey} : writer.Asks source fragments key →
      writer.outputs.has (Plan.unitPath writer.outputs.directory key) = true →
      Missed writer source fragments tree
        (.alreadyCreated (Plan.unitPath writer.outputs.directory key).toText) writer tree
  | barred {key : UnitKey} {fault : Fault} {tree' : FileTree} :
      writer.Asks source fragments key →
      writer.outputs.has (Plan.unitPath writer.outputs.directory key) = false →
      (Plan.unitPath writer.outputs.directory key).Bars fault →
      tree.Tried (Plan.unitPath writer.outputs.directory key) tree' →
      Missed writer source fragments tree fault writer tree'
  | broken {key : UnitKey} {fault : Fault} {tree' : FileTree} :
      writer.Asks source fragments key →
      writer.outputs.has (Plan.unitPath writer.outputs.directory key) = false →
      pathFault? (Plan.unitPath writer.outputs.directory key) = none →
      tree.Broke (Plan.unitPath writer.outputs.directory key)
        (TestFile.render ((packageName? key.package).getD []) fragments) fault tree' →
      Missed writer source fragments tree fault (writer.keeping source key) tree'

theorem fails_write (h : Fails (write source fragments) writer world fault writer' world') :
    Missed writer source fragments world.files fault writer' world'.files := by
  cases fragments with
  | nil => exact absurd h fails_pure
  | cons first rest =>
    simp only [write] at h
    split at h
    case h_2 =>
      obtain ⟨rfl, rfl, rfl⟩ := fails_throw.mp h
      exact .illTyped
    next file hfile =>
    simp only [fails_bind, fails_get, false_or, ends_get] at h
    obtain ⟨_, _, _, ⟨rfl, rfl, rfl⟩, h⟩ := h
    split at h
    · exact absurd h fails_pure
    next hfree =>
    simp only [fails_bind, fails_notifyAll, false_or, ends_notifyAll, fails_expect,
      ends_expect] at h
    obtain ⟨_, _, _, ⟨rfl, rfl⟩, ⟨-, rfl, rfl, rfl⟩ | ⟨_, _, _, ⟨-, rfl, rfl⟩, h⟩⟩ := h
    · exact .illTyped
    split at h
    case h_2 =>
      obtain ⟨rfl, rfl, rfl⟩ := fails_throw.mp h
      exact .illTyped
    next package hpackage =>
    simp only [onOutputs, fails_bind, fails_within, fails_modify, fails_notify, fails_pure,
      and_false, exists_false, or_false] at h
    obtain ⟨part, hcreate, rfl⟩ := h
    rw [pathFor_eq hpackage] at hcreate
    have hasks : Asks _ source (first :: rest) _ := ⟨⟨first, file, rfl, hfile, rfl⟩, hfree⟩
    have hcases := Outputs.fails_create hcreate
    dsimp only at hcases
    rcases hcases with
      ⟨rfl, ⟨hhas, rfl, hfiles⟩ | ⟨hfree, hbars, htried⟩⟩ | ⟨rfl, hfree, hpath, hbroke⟩
    · exact hfiles ▸ .taken hasks hhas
    · exact .barred hasks hfree hbars htried
    · have hname : Option.getD _ [] = package := congrArg (Option.getD · []) hpackage
      exact .broken hasks hfree hpath (hname ▸ hbroke)

/-- What a writer can come to, and the units whose files it has opened on the way. Where it
fails it may have opened the file of the unit that it was asked for. -/
inductive Reached (directory : Path) (suffix : Text) : UnitWriter → List Opening → Prop
  | make : Reached directory suffix (make directory suffix) []
  | ends {writer : UnitWriter} {openings : List Opening} {source : Label}
      {fragments : List Fragment} {world : World} {written : Option UnitKey} {writer' : UnitWriter}
      {world' : World} :
      Reached directory suffix writer openings → ArePackaged fragments →
      Ends (write source fragments) writer world written writer' world' →
      Reached directory suffix writer' (openings ++ written.toList.map (⟨⟨source, ·⟩, true⟩))
  | fails {writer : UnitWriter} {openings : List Opening} {source : Label}
      {fragments : List Fragment} {world : World} {fault : Fault} {writer' : UnitWriter}
      {world' : World} {opened : Option UnitKey} :
      Reached directory suffix writer openings → ArePackaged fragments →
      Fails (write source fragments) writer world fault writer' world' →
      (∀ key ∈ opened, writer.Asks source fragments key) →
      writer'.outputs.created = writer.outputs.created ++
        opened.toList.map (fun key => Emission.output directory ⟨source, key⟩) →
      Reached directory suffix writer' (openings ++ opened.toList.map (⟨⟨source, ·⟩, false⟩))

/-- A unit that is written. -/
structure Wrote (writer : UnitWriter) (source : Label) (fragments : List Fragment)
    (key : UnitKey) (writer' : UnitWriter) (tree tree' : FileTree) : Prop where
  asks : writer.Asks source fragments key
  uncreated : writer.outputs.has (Plan.unitPath writer.outputs.directory key) = false
  path : pathFault? (Plan.unitPath writer.outputs.directory key) = none
  writer_eq : writer' = { writer.keeping source key with
    written := writer.written ++ [key.qualifiedName] }
  placed : ∃ bytes, tree.place? (Plan.unitPath writer.outputs.directory key) bytes = some tree'

/-- Writing a unit ends with a unit written, or without one and as it began. -/
theorem ends_write (h : Ends (write source fragments) writer world written writer' world') :
    written = none ∧ writer' = writer ∧ world' = world ∨ ∃ key, written = some key ∧
      Wrote writer source fragments key writer' world.files world'.files := by
  cases fragments with
  | nil => exact .inl (ends_pure.mp h)
  | cons first rest =>
    obtain ⟨file, hfile, ⟨-, rfl, rfl, rfl⟩ | ⟨package, hadmits, rfl, rfl, files, hfiles, rfl⟩⟩ :=
      ends_write_cons_iff.mp h
    · exact .inl ⟨rfl, rfl, rfl⟩
    · have hpath : writer.outputs.pathFor _ _ _ = _ := pathFor_eq hadmits.package_eq
      rw [hpath] at hfiles
      refine .inr ⟨_, rfl, ⟨⟨first, file, rfl, hfile, rfl⟩, hadmits.free⟩, ?_, ?_, ?_, _, hfiles⟩
      · exact hpath ▸ hadmits.uncreated
      · exact hpath ▸ hadmits.path
      · simp [keeping, Emission.output, hpath]

/-- The names of a writer are those of the units it has written to the end, and its outputs
are those of all units whose files it has opened. -/
structure InStep (directory : Path) (suffix : Text) (writer : UnitWriter)
    (openings : List Opening) : Prop where
  suffix_eq : writer.suffix = suffix
  directory_eq : writer.outputs.directory = directory
  written : writer.written = (openings.filter (·.whole)).map (·.key.qualifiedName)
  created : writer.outputs.created = openings.map (·.output directory)
  plain : ∀ opening ∈ openings, opening.key.IsPlain
  nodup : writer.written.Nodup
  nodup_paths : (writer.outputs.created.map (·.path.toText)).Nodup

theorem slash_not_mem_base (path : Text) :
    CodePoint.char '/' ∉ FileName.base (FileName.ofPath path) := by
  have hname : CodePoint.char '/' ∉ FileName.ofPath (FileName.ofPath path) :=
    Text.sep_not_mem_afterLast _ _
  simp only [FileName.base, Text.cutLast?]
  split
  · next before _ hcut =>
    split at hcut
    · obtain ⟨rfl, -⟩ := Prod.mk.inj (Option.some.inj hcut)
      intro hm
      have htail := List.mem_of_mem_tail (List.mem_reverse.mp hm)
      exact hname (List.mem_reverse.mp ((List.dropWhile_sublist _).subset htail))
    · simp at hcut
  · exact hname

theorem Asks.isPlain {key : UnitKey} (h : writer.Asks source fragments key)
    (hpackaged : ArePackaged fragments) (hsuffix : CodePoint.char '/' ∉ writer.suffix) :
    key.IsPlain := by
  obtain ⟨first, file, hfirst, -, rfl⟩ := h.names
  refine ⟨hpackaged first (List.mem_of_head? hfirst), ?_⟩
  rw [keyFor, List.mem_append, not_or]
  exact ⟨slash_not_mem_base file, hsuffix⟩

theorem Asks.unique {key other : UnitKey} (h : writer.Asks source fragments key)
    (h' : writer.Asks source fragments other) : key = other := by
  obtain ⟨first, file, hfirst, hfile, rfl⟩ := h.names
  obtain ⟨first', file', hfirst', hfile', rfl⟩ := h'.names
  cases hfirst.symm.trans hfirst'
  cases hfile.symm.trans hfile'
  rfl

namespace InStep

theorem nodup_keeping {key : UnitKey} (h : InStep directory suffix writer openings)
    (source : Label)
    (hfree : writer.outputs.has (Plan.unitPath writer.outputs.directory key) = false) :
    ((writer.keeping source key).outputs.created.map (·.path.toText)).Nodup :=
  have hfree' : writer.outputs.has (Emission.output writer.outputs.directory
      ⟨source, key⟩).path = false := hfree
  Outputs.nodup_add hfree' h.nodup_paths

theorem plain_concat {opening : Opening} (h : InStep directory suffix writer openings)
    (hkey : opening.key.IsPlain) : ∀ other ∈ openings ++ [opening], other.key.IsPlain :=
  List.forall_mem_append.mpr ⟨h.plain, List.forall_mem_singleton.mpr hkey⟩

theorem wrote {key : UnitKey} {tree tree' : FileTree}
    (h : InStep directory suffix writer openings)
    (hwrote : Wrote writer source fragments key writer' tree tree') (hkey : key.IsPlain) :
    InStep directory suffix writer' (openings ++ [⟨⟨source, key⟩, true⟩]) := by
  have hpaths := h.nodup_keeping source hwrote.uncreated
  rw [hwrote.writer_eq]
  refine ⟨h.suffix_eq, h.directory_eq, ?_, ?_, h.plain_concat hkey, ?_, hpaths⟩
  · simp [h.written, List.filter_append]
  · simp [keeping, Outputs.add, h.created, h.directory_eq]
  · refine List.nodup_append.mpr ⟨h.nodup, by simp, fun name hm other ho he => ?_⟩
    obtain rfl := List.mem_singleton.mp ho
    exact hwrote.asks.free (he ▸ hm)

/-- A fault leaves the writer as it is, or with the unit that was opened. -/
theorem missed {tree tree' : FileTree} (h : InStep directory suffix writer openings)
    (hmissed : Missed writer source fragments tree fault writer' tree') :
    writer' = writer ∨ (fault = .fileSystem ∨ fault = .notEncodable) ∧
      ∃ key, writer.Asks source fragments key ∧ writer' = writer.keeping source key ∧
        (writer.outputs.has (Plan.unitPath writer.outputs.directory key) = false) ∧
        ∃ part, tree'.read? (Plan.unitPath directory key) = some part := by
  cases hmissed with
  | illTyped => exact .inl rfl
  | taken => exact .inl rfl
  | barred => exact .inl rfl
  | broken hasks hfree hpath hbroke =>
    obtain ⟨part, location, hplaced, hcause⟩ := hbroke
    refine .inr ⟨hcause.symm.imp (·.2.1) (·.2), _, hasks, rfl, hfree, part, ?_⟩
    rw [← h.directory_eq]
    exact FileTree.read?_eq_some.mpr ⟨location, hplaced.leads, hplaced.at_eq⟩

theorem opened {key : UnitKey} (h : InStep directory suffix writer openings)
    (hfree : writer.outputs.has (Plan.unitPath writer.outputs.directory key) = false)
    (hkey : key.IsPlain) : InStep directory suffix (writer.keeping source key)
      (openings ++ [⟨⟨source, key⟩, false⟩]) := by
  refine ⟨h.suffix_eq, h.directory_eq, ?_, ?_, h.plain_concat hkey, h.nodup,
    h.nodup_keeping source hfree⟩
  · simp [keeping, h.written, List.filter_append]
  · simp [keeping, Outputs.add, h.created, h.directory_eq]

end InStep

theorem Reached.inStep (hsuffix : CodePoint.char '/' ∉ suffix)
    (h : Reached directory suffix writer openings) : InStep directory suffix writer openings := by
  induction h with
  | make => exact ⟨rfl, rfl, rfl, rfl, by simp, List.nodup_nil, List.nodup_nil⟩
  | ends _ hpackaged hends ih =>
    rcases ends_write hends with ⟨rfl, rfl, -⟩ | ⟨key, rfl, hwrote⟩
    · simpa using ih
    · exact ih.wrote hwrote (hwrote.asks.isPlain hpackaged (ih.suffix_eq ▸ hsuffix))
  | @fails _ _ _ _ _ _ _ _ opened _ hpackaged hfails hasked hcreated ih =>
    rcases ih.missed (fails_write hfails) with rfl | ⟨-, key, hasks, rfl, hfree, -⟩
    · cases opened with
      | none => simpa using ih
      | some key => simp at hcreated
    · cases opened with
      | none => simp [keeping, Outputs.add] at hcreated
      | some other =>
        obtain rfl := hasks.unique (hasked other rfl)
        exact ih.opened hfree (hasks.isPlain hpackaged (ih.suffix_eq ▸ hsuffix))

/-- Wherever a writer fails it is one that can be reached. -/
theorem Reached.of_fails (hsuffix : CodePoint.char '/' ∉ suffix)
    (h : Reached directory suffix writer openings) (hpackaged : ArePackaged fragments)
    (hfails : Fails (write source fragments) writer world fault writer' world') :
    ∃ opened : Option UnitKey, Reached directory suffix writer'
      (openings ++ opened.toList.map (⟨⟨source, ·⟩, false⟩)) := by
  have hstep := h.inStep hsuffix
  rcases hstep.missed (fails_write hfails) with rfl | ⟨-, key, hasks, rfl, -, -⟩
  · exact ⟨none, h.fails hpackaged hfails nofun (by simp)⟩
  · refine ⟨some key, h.fails hpackaged hfails ?_ ?_⟩
    · rintro _ ⟨⟩
      exact hasks
    · simp [keeping, Outputs.add, hstep.directory_eq]

namespace InStep

/-- A path that is asked for again is that of a unit that broke off. -/
theorem broken_of_alreadyCreated (hd : directory.IsRead) (hsuffix : CodePoint.char '/' ∉ suffix)
    (h : InStep directory suffix writer openings) (hpackaged : ArePackaged fragments)
    {path : Text}
    (hfails : Fails (write source fragments) writer world (.alreadyCreated path) writer' world') :
    writer' = writer ∧ ∃ opening ∈ openings, opening.whole = false ∧
      path = (opening.output directory).path.toText := by
  have hmissed := fails_write hfails
  generalize hfault : Fault.alreadyCreated path = fault at hmissed
  generalize world'.files = files at hmissed
  cases hmissed with
  | illTyped => cases hfault
  | taken hasks hhas =>
    cases hfault
    rw [h.directory_eq] at hhas ⊢
    rw [Outputs.has, h.created, List.any_map] at hhas
    obtain ⟨opening, ho, htext⟩ := List.any_eq_true.mp hhas
    refine ⟨rfl, opening, ho, ?_, (of_decide_eq_true htext).symm⟩
    -- the name of a whole unit is not free
    refine Bool.eq_false_iff.mpr fun hwhole => hasks.free ?_
    have hplain := hasks.isPlain hpackaged (h.suffix_eq ▸ hsuffix)
    rw [h.written, ← UnitKey.qualifiedName_of_toText hd (h.plain _ ho) hplain
      (of_decide_eq_true htext)]
    exact List.mem_map.mpr ⟨opening, List.mem_filter.mpr ⟨ho, hwhole⟩, rfl⟩
  | barred _ _ hbars _ =>
    subst hfault
    rcases hbars with hbar | hbar | hbar
    · rcases eq_of_pathFault? hbar with he | he <;> cases he
    · rcases eq_of_pathFault? hbar with he | he <;> cases he
    · cases hbar
  | broken _ _ _ hbroke =>
    subst hfault
    obtain ⟨_, _, -, ⟨-, he⟩ | ⟨-, he, -⟩⟩ := hbroke <;> cases he

/-- The place of a unit that is asked for is not that of one that was written. -/
theorem not_meet_of_asks (hsuffix : CodePoint.char '/' ∉ suffix)
    (h : InStep directory suffix writer openings) (hpackaged : ArePackaged fragments)
    {key : UnitKey} (hasks : writer.Asks source fragments key) (hkey : key.IsEncodable)
    {opening : Opening} (ho : opening ∈ openings) (hwhole : opening.whole = true)
    (hencodable : opening.key.IsEncodable) (tree : FileTree) :
    ¬ tree.Meet (Plan.unitPath directory key) (Plan.unitPath directory opening.key) := by
  have hplain := hasks.isPlain hpackaged (h.suffix_eq ▸ hsuffix)
  refine UnitKey.not_meet hplain (h.plain _ ho) hkey hencodable fun hname => hasks.free ?_
  rw [h.written, hname]
  exact List.mem_map.mpr ⟨opening, List.mem_filter.mpr ⟨ho, hwhole⟩, rfl⟩

/-- What was written stays as it is while another unit is written. -/
theorem read?_ends (hsuffix : CodePoint.char '/' ∉ suffix)
    (h : InStep directory suffix writer openings) (hpackaged : ArePackaged fragments)
    (hends : Ends (write source fragments) writer world written writer' world')
    (hasked : ∀ key, writer.Asks source fragments key → key.IsEncodable) {opening : Opening}
    (ho : opening ∈ openings) (hwhole : opening.whole = true)
    (hencodable : opening.key.IsEncodable) {bytes : ByteArray}
    (hread : world.files.read? (Plan.unitPath directory opening.key) = some bytes) :
    world'.files.read? (Plan.unitPath directory opening.key) = some bytes := by
  rcases ends_write hends with ⟨-, -, rfl⟩ | ⟨key, rfl, hwrote⟩
  · exact hread
  · obtain ⟨content, hplaced⟩ := hwrote.placed
    rw [h.directory_eq] at hplaced
    obtain ⟨location, hplaced⟩ := FileTree.placed_of_place? hplaced
    exact hplaced.read? hread (h.not_meet_of_asks hsuffix hpackaged hwrote.asks
      (hasked key hwrote.asks) ho hwhole hencodable _)

/-- And it stays as it is when another one cannot be written. -/
theorem read?_fails (hsuffix : CodePoint.char '/' ∉ suffix)
    (h : InStep directory suffix writer openings) (hpackaged : ArePackaged fragments)
    (hfails : Fails (write source fragments) writer world fault writer' world')
    (hasked : ∀ key, writer.Asks source fragments key → key.IsEncodable) {opening : Opening}
    (ho : opening ∈ openings) (hwhole : opening.whole = true)
    (hencodable : opening.key.IsEncodable) {bytes : ByteArray}
    (hread : world.files.read? (Plan.unitPath directory opening.key) = some bytes) :
    world'.files.read? (Plan.unitPath directory opening.key) = some bytes := by
  have hmissed := fails_write hfails
  generalize world'.files = files at hmissed ⊢
  cases hmissed with
  | illTyped => exact hread
  | taken => exact hread
  | barred _ _ _ htried =>
    obtain ⟨location, hlocate, hat⟩ := FileTree.read?_eq_some.mp hread
    exact FileTree.read?_eq_some.mpr ⟨location, htried.extends.grows.locate hlocate,
      htried.extends.entries location _ hat⟩
  | broken hasks _ _ hbroke =>
    obtain ⟨part, location, hplaced, -⟩ := hbroke
    rw [h.directory_eq] at hplaced
    exact hplaced.read? hread (h.not_meet_of_asks hsuffix hpackaged hasks
      (hasked _ hasks) ho hwhole hencodable _)

end InStep

/-- The writer has one output for each unit whose file it has opened, from the source file of
that unit, and one name for each of these that it has written to the end. No path and no name
is there twice. It asks for a path again only where the unit broke off there, keeps nothing of
a unit that fails before its file is open, and leaves the units that were written as they are
where names are texts: a name that is none may stand for the bytes of another one. -/
structure WritesOnce (directory : Path) (writer : UnitWriter) (openings : List Opening) :
    Prop where
  written : writer.written = (openings.filter (·.whole)).map (·.key.qualifiedName)
  created : writer.outputs.created = openings.map (·.output directory)
  nodup : writer.written.Nodup
  nodup_paths : (writer.outputs.created.map (·.path.toText)).Nodup
  broken_of_alreadyCreated : ∀ {source fragments world path writer' world'},
    ArePackaged fragments →
    Fails (write source fragments) writer world (.alreadyCreated path) writer' world' →
    ∃ opening ∈ openings, opening.whole = false ∧
      path = (opening.output directory).path.toText
  kept_of_fails : ∀ {source fragments world fault writer' world'},
    Fails (write source fragments) writer world fault writer' world' →
    writer' = writer ∨ (fault = .fileSystem ∨ fault = .notEncodable) ∧
      ∃ key, writer.Asks source fragments key ∧ writer' = writer.keeping source key ∧
        writer.outputs.has (Plan.unitPath writer.outputs.directory key) = false ∧
        ∃ part, world'.files.read? (Plan.unitPath directory key) = some part
  kept_by_ends : ∀ {source fragments world written writer' world'}, ArePackaged fragments →
    Ends (write source fragments) writer world written writer' world' →
    (∀ key, writer.Asks source fragments key → key.IsEncodable) →
    ∀ opening ∈ openings, opening.whole = true → opening.key.IsEncodable →
    ∀ bytes, world.files.read? (Plan.unitPath directory opening.key) = some bytes →
      world'.files.read? (Plan.unitPath directory opening.key) = some bytes
  kept_by_fails : ∀ {source fragments world fault writer' world'}, ArePackaged fragments →
    Fails (write source fragments) writer world fault writer' world' →
    (∀ key, writer.Asks source fragments key → key.IsEncodable) →
    ∀ opening ∈ openings, opening.whole = true → opening.key.IsEncodable →
    ∀ bytes, world.files.read? (Plan.unitPath directory opening.key) = some bytes →
      world'.files.read? (Plan.unitPath directory opening.key) = some bytes

theorem InStep.writesOnce (hd : directory.IsRead) (hsuffix : CodePoint.char '/' ∉ suffix)
    (h : InStep directory suffix writer openings) : WritesOnce directory writer openings where
  written := h.written
  created := h.created
  nodup := h.nodup
  nodup_paths := h.nodup_paths
  broken_of_alreadyCreated := fun hpackaged hfails =>
    (h.broken_of_alreadyCreated hd hsuffix hpackaged hfails).2
  kept_of_fails := fun hfails => h.missed (fails_write hfails)
  kept_by_ends := fun hpackaged hends hasked _ ho hwhole hencodable _ =>
    h.read?_ends hsuffix hpackaged hends hasked ho hwhole hencodable
  kept_by_fails := fun hpackaged hfails hasked _ ho hwhole hencodable _ =>
    h.read?_fails hsuffix hpackaged hfails hasked ho hwhole hencodable

end UnitWriter

end PreviewShots

import PreviewShots.Proofs.Emission
import PreviewShots.Proofs.Json.RoundTrip
import PreviewShots.Proofs.ReportText

/-!
# The text of the manifest

Whatever becomes of the units that a writer is asked for, its outputs have different paths, and
each depends on the one source file of its unit (`UnitWriter.Asked.records`). The manifest lists
them in the order of their paths, and its text reads back as that list, on its own and from
the file it is written to (`UnitWriter.manifest_reads_back`). The path of a source file is read
back with its units joined, so that it is the recorded one only if no two of them in a row make
up a character (`UnitWriter.pair_reads_back_joined`).
-/

open PreviewShots.Task

namespace PreviewShots

variable {world world' : World} {fault : Fault}

-- ---------------------------------------------------------------------------
-- Outputs of units
-- ---------------------------------------------------------------------------

namespace Outputs

variable {outputs outputs' : Outputs} {source : Label}

/-- What the outputs can be once a unit of the source file was asked for: as they were, or with
one more, whose path is free. -/
inductive Goes (source : Label) (outputs : Outputs) : Outputs → Prop
  | same : Goes source outputs outputs
  | added {file : Text} {path : Path} : source = .string file → outputs.has path = false →
      pathFault? path = none →
      Goes source outputs (outputs.add ⟨path, .bool false, [source]⟩)

theorem Goes.keeps (h : Goes source outputs outputs') :
    outputs'.directory = outputs.directory ∧ outputs.created ⊆ outputs'.created := by
  cases h with
  | same => exact ⟨rfl, List.Subset.refl _⟩
  | added => exact ⟨rfl, List.subset_append_left _ _⟩

/-- The outputs have different paths, at which there can be files, and each depends on one of
the source files and on no other. -/
structure Records (outputs : Outputs) (sources : List Label) : Prop where
  nodup : (outputs.created.map (·.path.toText)).Nodup
  path : ∀ output ∈ outputs.created, pathFault? output.path = none
  aggregating : ∀ output ∈ outputs.created, output.aggregating = .bool false
  sources : ∀ output ∈ outputs.created, ∃ file : Text, .string file ∈ sources ∧
    output.sources = [.string file]

theorem Records.goes {sources : List Label} (h : outputs.Records sources)
    (hgoes : Goes source outputs outputs') : outputs'.Records (sources ++ [source]) := by
  have hkept : ∀ output ∈ outputs.created, ∃ file : Text, .string file ∈ sources ++ [source] ∧
      output.sources = [.string file] := by
    intro output ho
    obtain ⟨file, hfile, hsources⟩ := h.sources output ho
    exact ⟨file, List.mem_append_left _ hfile, hsources⟩
  cases hgoes with
  | same => exact ⟨h.nodup, h.path, h.aggregating, hkept⟩
  | @added file path hsource hfree hpath =>
    refine ⟨nodup_add hfree h.nodup, ?_, ?_, ?_⟩
    · exact List.forall_mem_append.mpr ⟨h.path, List.forall_mem_singleton.mpr hpath⟩
    · exact List.forall_mem_append.mpr ⟨h.aggregating, List.forall_mem_singleton.mpr rfl⟩
    · refine List.forall_mem_append.mpr ⟨hkept, List.forall_mem_singleton.mpr ⟨file, ?_, ?_⟩⟩
      · simp [hsource]
      · simp [hsource]

end Outputs

namespace UnitWriter

variable {directory : Path} {suffix : Text} {writer writer' : UnitWriter} {source : Label}
  {fragments : List Fragment} {written : Option UnitKey} {sources : List Label}
  {emissions : List Emission}

theorem Asks.exists_string {key : UnitKey} (h : writer.Asks source fragments key) :
    ∃ file, source = .string file := by
  obtain ⟨-, file, -, hfile, -⟩ := h.names
  cases source <;> cases hfile
  exact ⟨_, rfl⟩

theorem Asks.goes {key : UnitKey} (h : writer.Asks source fragments key)
    (hfree : writer.outputs.has (Plan.unitPath writer.outputs.directory key) = false)
    (hpath : pathFault? (Plan.unitPath writer.outputs.directory key) = none) :
    Outputs.Goes source writer.outputs (writer.keeping source key).outputs := by
  obtain ⟨file, hfile⟩ := h.exists_string
  exact .added hfile hfree hpath

theorem goes_ends_write (h : Ends (write source fragments) writer world written writer' world') :
    Outputs.Goes source writer.outputs writer'.outputs ∧ ∀ key ∈ written,
      Emission.output writer.outputs.directory ⟨source, key⟩ ∈ writer'.outputs.created := by
  rcases ends_write h with ⟨rfl, rfl, -⟩ | ⟨key, rfl, hwrote⟩
  · exact ⟨.same, nofun⟩
  · rw [hwrote.writer_eq]
    refine ⟨hwrote.asks.goes hwrote.uncreated hwrote.path, ?_⟩
    rintro _ ⟨⟩
    exact List.mem_append_right _ List.mem_cons_self

theorem goes_fails_write (h : Fails (write source fragments) writer world fault writer' world') :
    Outputs.Goes source writer.outputs writer'.outputs := by
  have hmissed := fails_write h
  generalize world'.files = files at hmissed
  cases hmissed with
  | illTyped => exact .same
  | taken => exact .same
  | barred => exact .same
  | broken hasks hfree hpath _ => exact hasks.goes hfree hpath

/-- What a writer can come to, the source files of the units it was asked for, and the units it
has written on the way; some could not be written, for whatever reason. -/
inductive Asked (directory : Path) (suffix : Text) :
    UnitWriter → List Label → List Emission → Prop
  | make : Asked directory suffix (make directory suffix) [] []
  | ends {writer : UnitWriter} {sources : List Label} {emissions : List Emission} {source : Label}
      {fragments : List Fragment} {world : World} {written : Option UnitKey} {writer' : UnitWriter}
      {world' : World} :
      Asked directory suffix writer sources emissions →
      Ends (write source fragments) writer world written writer' world' →
      Asked directory suffix writer' (sources ++ [source])
        (emissions ++ written.toList.map (⟨source, ·⟩))
  | fails {writer : UnitWriter} {sources : List Label} {emissions : List Emission}
      {source : Label} {fragments : List Fragment} {world : World} {fault : Fault}
      {writer' : UnitWriter} {world' : World} :
      Asked directory suffix writer sources emissions →
      Fails (write source fragments) writer world fault writer' world' →
      Asked directory suffix writer' (sources ++ [source]) emissions

theorem Asked.records (h : Asked directory suffix writer sources emissions) :
    writer.outputs.Records sources := by
  induction h with
  | make => exact ⟨List.nodup_nil, nofun, nofun, nofun⟩
  | ends _ hends ih => exact ih.goes (goes_ends_write hends).1
  | fails _ hfails ih => exact ih.goes (goes_fails_write hfails)

/-- Each unit that was written is kept as an output. -/
theorem Asked.created (h : Asked directory suffix writer sources emissions) :
    writer.outputs.directory = directory ∧
      ∀ emission ∈ emissions, emission.output directory ∈ writer.outputs.created := by
  induction h with
  | make => exact ⟨rfl, nofun⟩
  | ends _ hends ih =>
    obtain ⟨rfl, hearlier⟩ := ih
    obtain ⟨hgoes, hwritten⟩ := goes_ends_write hends
    obtain ⟨hdirectory, hkept⟩ := hgoes.keeps
    refine ⟨hdirectory, List.forall_mem_append.mpr ⟨fun emission he => ?_, ?_⟩⟩
    · exact hkept (hearlier emission he)
    · intro emission he
      obtain ⟨key, hkey, rfl⟩ := List.mem_map.mp he
      exact hwritten key (Option.mem_toList.mp hkey)
  | fails _ hfails ih =>
    obtain ⟨hdirectory, hkept⟩ := (goes_fails_write hfails).keeps
    exact ⟨hdirectory.trans ih.1, fun emission he => hkept (ih.2 emission he)⟩

end UnitWriter

-- ---------------------------------------------------------------------------
-- Members in order
-- ---------------------------------------------------------------------------

namespace Outputs

theorem mem_insertByKey {member entry : Member} {members : List Member} :
    member ∈ insertByKey entry members ↔ member = entry ∨ member ∈ members := by
  induction members with
  | nil => simp [insertByKey]
  | cons other members ih =>
    simp only [insertByKey]
    split
    · simp
    · simp only [List.mem_cons, ih]
      exact or_left_comm

theorem insertByKey_pairwise {entry : Member} {members : List Member}
    (h : members.Pairwise (·.key < ·.key)) (hfree : entry.key ∉ members.map (·.key)) :
    (insertByKey entry members).Pairwise (·.key < ·.key) := by
  induction members with
  | nil => simp [insertByKey]
  | cons other members ih =>
    obtain ⟨hhead, htail⟩ := List.pairwise_cons.mp h
    simp only [List.map_cons, List.mem_cons, not_or] at hfree
    simp only [insertByKey]
    split
    · next hlt =>
      refine List.pairwise_cons.mpr ⟨?_, h⟩
      refine List.forall_mem_cons.mpr ⟨hlt, fun member hm => ?_⟩
      exact List.lt_trans hlt (hhead member hm)
    · next hlt =>
      refine List.pairwise_cons.mpr ⟨fun member hm => ?_, ih htail hfree.2⟩
      rcases mem_insertByKey.mp hm with rfl | hm
      · exact (List.le_iff_lt_or_eq.mp (List.not_lt.mp hlt)).resolve_right (Ne.symm hfree.1)
      · exact hhead member hm

/-- The members list the outputs in strictly ascending order of their paths, each output once,
with its mark and the source files it depends on. -/
structure Lists (members : List Member) (outputs : List Output) : Prop where
  ascending : members.Pairwise (·.key < ·.key)
  mem_iff : ∀ member, member ∈ members ↔ ∃ output ∈ outputs, member.key = output.path.toText ∧
    member.value = .object [⟨"aggregating", output.aggregating⟩,
      ⟨"sources", .array output.sources⟩]

theorem eq_manifestEntry_iff {member : Member} {output : Output} :
    member = manifestEntry output ↔ member.key = output.path.toText ∧
      member.value = .object [⟨"aggregating", output.aggregating⟩,
        ⟨"sources", .array output.sources⟩] := by
  cases member
  simp [manifestEntry]

theorem Lists.mem_iff_exists {members : List Member} {outputs : List Output}
    (h : Lists members outputs) (member : Member) :
    member ∈ members ↔ ∃ output ∈ outputs, member = manifestEntry output := by
  simp only [h.mem_iff, eq_manifestEntry_iff]

theorem lists_foldr {created : List Output} (h : (created.map (·.path.toText)).Nodup) :
    Lists ((created.map manifestEntry).foldr insertByKey []) created := by
  induction created with
  | nil => exact ⟨.nil, by simp⟩
  | cons output created ih =>
    obtain ⟨hfree, hnodup⟩ := List.nodup_cons.mp h
    obtain ⟨hascending, hmem⟩ := ih hnodup
    refine ⟨insertByKey_pairwise hascending ?_, fun member => ?_⟩
    · intro hm
      obtain ⟨member, hmember, hkey⟩ := List.mem_map.mp hm
      obtain ⟨other, ho, hother, -⟩ := (hmem member).mp hmember
      exact hfree (List.mem_map.mpr ⟨other, ho, hother.symm.trans hkey⟩)
    · rw [List.map_cons, List.foldr_cons, mem_insertByKey, hmem, eq_manifestEntry_iff]
      simp only [List.mem_cons, exists_eq_or_imp]

theorem exists_lists {outputs : Outputs} (h : (outputs.created.map (·.path.toText)).Nodup) :
    ∃ members, outputs.manifest = .object members ∧ Lists members outputs.created :=
  ⟨_, rfl, lists_foldr h⟩

theorem Lists.nodup {members : List Member} {created : List Output} (h : Lists members created) :
    (members.map (·.key)).Nodup := by
  refine List.pairwise_map.mpr (h.ascending.imp fun hlt he => ?_)
  exact List.lt_irrefl _ (he ▸ hlt)

theorem isJoined_of_pathFault? {path : Path} (h : pathFault? path = none) :
    Json.IsJoined path.toText := by
  refine Json.isJoined_of_isNameable ?_
  cases hname : path.toText.isNameable with
  | true => rfl
  | false => simp [pathFault?, hname] at h

end Outputs

/-- An output as the manifest tells of it, once that is read back. -/
def Output.rejoined (output : Output) : Output :=
  { output with
    aggregating := output.aggregating.rejoined
    sources := output.sources.map Json.rejoined }

namespace Outputs

variable {outputs : Outputs} {sources : List Label} {members : List Member}

theorem rejoined_manifestEntry {output : Output} (h : pathFault? output.path = none) :
    Json.rejoinedMember (manifestEntry output) = manifestEntry output.rejoined := by
  have hpath := Json.joined_eq_self_iff.mpr (isJoined_of_pathFault? h)
  have haggregating : Json.joined "aggregating" = Text.ofString "aggregating" := by decide
  have hsources : Json.joined "sources" = Text.ofString "sources" := by decide
  simp [manifestEntry, Json.rejoinedMember, Json.rejoined, Json.rejoinedMembers,
    Json.rejoinedItems_eq, Output.rejoined, hpath, haggregating, hsources]

/-- The keys are read back as they are. -/
theorem Lists.joined_key (h : Lists members outputs.created) (hrecords : outputs.Records sources)
    {member : Member} (hm : member ∈ members) : Json.joined member.key = member.key := by
  obtain ⟨output, ho, hkey, -⟩ := (h.mem_iff member).mp hm
  rw [hkey, Json.joined_eq_self_iff.mpr (isJoined_of_pathFault? (hrecords.path output ho))]

/-- All that the manifest holds can be read back. -/
theorem Lists.isLegible (h : Lists members outputs.created) (hrecords : outputs.Records sources) :
    Json.IsLegible (.object members) := by
  have hkeys : members.map (fun member => Json.joined member.key) = members.map (·.key) :=
    List.map_congr_left fun _ hm => h.joined_key hrecords hm
  refine .object (hkeys ▸ h.nodup) fun member hm => ?_
  obtain ⟨output, ho, -, hvalue⟩ := (h.mem_iff member).mp hm
  obtain ⟨file, -, hfiles⟩ := hrecords.sources output ho
  have hlist : Json.IsLegible (.array [.string file]) :=
    .array (List.forall_mem_singleton.mpr (.string file))
  rw [hvalue, hrecords.aggregating output ho, hfiles]
  have hnames : [Json.joined "aggregating", Json.joined "sources"].Nodup := by decide
  exact .object hnames
    (List.forall_mem_cons.mpr ⟨.bool false, List.forall_mem_singleton.mpr hlist⟩)

/-- What is read back lists the outputs as the manifest tells of them. -/
theorem Lists.rejoined (h : Lists members outputs.created) (hrecords : outputs.Records sources) :
    Lists (members.map Json.rejoinedMember) (outputs.created.map Output.rejoined) := by
  refine ⟨?_, fun back => ?_⟩
  · refine List.pairwise_map.mpr (h.ascending.imp_of_mem fun hm ho hlt => ?_)
    simpa only [Json.rejoinedMember, h.joined_key hrecords hm, h.joined_key hrecords ho] using hlt
  · have hentry (output : Output) (ho : output ∈ outputs.created) :=
      rejoined_manifestEntry (hrecords.path output ho)
    simp only [← eq_manifestEntry_iff]
    constructor
    · intro hm
      obtain ⟨member, hmember, rfl⟩ := List.mem_map.mp hm
      obtain ⟨output, ho, rfl⟩ := (h.mem_iff_exists member).mp hmember
      exact ⟨_, List.mem_map_of_mem ho, hentry output ho⟩
    · rintro ⟨_, hm, rfl⟩
      obtain ⟨output, ho, rfl⟩ := List.mem_map.mp hm
      have hmember := (h.mem_iff_exists _).mpr ⟨output, ho, rfl⟩
      exact List.mem_map.mpr ⟨_, hmember, hentry output ho⟩

-- ---------------------------------------------------------------------------
-- The file of the manifest
-- ---------------------------------------------------------------------------

/-- A manifest that has a form in UTF-8 is written where there can be a file. -/
theorem exists_ends_writeManifest {outputs : Outputs} {path : Path} {files : FileTree}
    (hparent : pathFault? path.parent = none) (hpath : pathFault? path = none)
    (hencodable : (outputs.manifest.indented 0).isEncodable = true)
    (hfiles : world.files.place? path ((outputs.manifest.indented 0).utf8?.getD .empty) =
      some files) :
    ∃ notices, Ends (writeManifest path) outputs world path outputs
      { world with files, notices } := by
  obtain ⟨made, hmade, hwritten⟩ := FileTree.place?_eq_some.mp hfiles
  refine ⟨world.notices ++ [.manifestWritten outputs.created.length path.toText], ?_⟩
  simp only [writeManifest, ends_bind, ends_get, ends_makeDirectories, ends_writeText,
    ends_notify, ends_pure]
  exact ⟨outputs, _, _, ⟨rfl, rfl, rfl⟩, (), _, _, ⟨hparent, rfl, made, hmade, rfl⟩, (), _, _,
    ⟨hpath, hencodable, rfl, files, hwritten, rfl⟩, (), _, _, ⟨rfl, rfl⟩, trivial, rfl, rfl⟩

end Outputs

/-- ASCII that was written to a file is what the file is read as. -/
theorem ends_readChars_of_isAscii {σ : Type} {state : σ} {path : Path} {text : Text}
    (hpath : pathFault? path = none) (hascii : text.IsAscii)
    (hread : world.files.read? path = some (text.utf8?.getD .empty)) :
    Ends (readChars path) state world text.characters state world := by
  obtain ⟨written, hwritten, hchars⟩ :=
    Text.read_utf8 hascii.isEncodable hascii.return_not_mem
  refine ends_readChars.mpr ⟨hpath, ⟨_, written, hread, hwritten, ?_⟩, rfl, rfl⟩
  rw [← hchars, Text.characters_ofChars]

namespace Outputs

theorem manifestEntry_injective {output other : Output} (hpath : output.path = other.path)
    (h : manifestEntry output = manifestEntry other) : output = other := by
  cases output
  cases other
  simp_all [manifestEntry]

/-- The outputs are listed as they were recorded if nothing in them is changed by joining. -/
theorem Lists.exact_iff {outputs : Outputs} {members : List Member}
    (h : Lists members (outputs.created.map Output.rejoined))
    (hnodup : (outputs.created.map (·.path.toText)).Nodup) :
    Lists members outputs.created ↔ ∀ output ∈ outputs.created, output.rejoined = output := by
  constructor
  · intro hexact output ho
    have hmem : manifestEntry output.rejoined ∈ members :=
      (h.mem_iff_exists _).mpr ⟨_, List.mem_map.mpr ⟨output, ho, rfl⟩, rfl⟩
    obtain ⟨other, hother, he⟩ := (hexact.mem_iff_exists _).mp hmem
    obtain rfl : output = other :=
      List.inj_on_of_nodup_map hnodup ho hother (congrArg Member.key he)
    exact manifestEntry_injective rfl he
  · intro hsame
    have hmap : outputs.created.map Output.rejoined = outputs.created :=
      List.map_congr_left hsame |>.trans (List.map_id _)
    rwa [hmap] at h

end Outputs

namespace UnitWriter

variable {directory : Path} {suffix : Text} {writer : UnitWriter} {sources : List Label}
  {emissions : List Emission}

/-- The manifest of the writer reads back as the list of its outputs, with the paths in it joined:
its text does, and so does the file that it is written to, wherever there can be one. -/
structure Manifests (writer : UnitWriter) (members : List Member) (chars : List Char) : Prop where
  text : writer.outputs.manifest.indented 0 = Text.ofChars chars
  parse : ∀ limit, Json.parse limit chars = .ok (.object members)
  lists : Outputs.Lists members (writer.outputs.created.map Output.rejoined)
  exact_iff : Outputs.Lists members writer.outputs.created ↔
    ∀ output ∈ writer.outputs.created, output.rejoined = output
  file : ∀ (path : Path) (world : World) (files : FileTree),
    pathFault? path.parent = none → pathFault? path = none →
    world.files.place? path ((Text.ofChars chars).utf8?.getD .empty) = some files →
    ∃ notices, Ends (Outputs.writeManifest path) writer.outputs world path writer.outputs
        { world with files, notices } ∧
      Ends (readChars path) () { world with files, notices } chars ()
        { world with files, notices }

theorem Asked.manifests (h : Asked directory suffix writer sources emissions) :
    ∃ members chars, writer.Manifests members chars := by
  obtain ⟨members, hmanifest, hlists⟩ := Outputs.exists_lists h.records.nodup
  have hlegible := hlists.isLegible h.records
  have hrejoined := hlists.rejoined h.records
  rw [← hmanifest] at hlegible
  have hascii := hlegible.isAscii 0
  have htext := Text.ofChars_characters hascii.isEncodable
  refine ⟨members.map Json.rejoinedMember, _, htext.symm, fun limit => ?_, hrejoined,
    hrejoined.exact_iff h.records.nodup, ?_⟩
  · rw [Json.parse_indented hlegible limit, hmanifest, Json.rejoined, Json.rejoinedMembers_eq]
  · intro path world files hparent hpath hfiles
    rw [htext] at hfiles
    obtain ⟨notices, hends⟩ :=
      Outputs.exists_ends_writeManifest hparent hpath hascii.isEncodable hfiles
    exact ⟨notices, hends,
      ends_readChars_of_isAscii hpath hascii (FileTree.read?_place? hfiles)⟩

/-- Whatever units a writer was asked for, and of whatever source files, its manifest reads back
as the list of its outputs. These are those of the units it has written, and all of them depend
on one of the source files and on no other, whose path is read back as it is if it is joined. -/
theorem manifest_reads_back (h : Asked directory suffix writer sources emissions) :
    (∃ members chars, writer.Manifests members chars) ∧
    (∀ emission ∈ emissions, emission.output directory ∈ writer.outputs.created) ∧
    ∀ output ∈ writer.outputs.created,
      output.aggregating = .bool false ∧ output.rejoined.aggregating = .bool false ∧
      ∃ file : Text, .string file ∈ sources ∧ output.sources = [.string file] ∧
        output.rejoined.sources = [.string (Json.joined file)] ∧
        (output.rejoined = output ↔ Json.IsJoined file) := by
  refine ⟨h.manifests, h.created.2, fun output ho => ?_⟩
  have haggregating := h.records.aggregating output ho
  obtain ⟨file, hfile, hsources⟩ := h.records.sources output ho
  have hrejoined : output.rejoined = ⟨output.path, .bool false, [.string (Json.joined file)]⟩ := by
    simp [Output.rejoined, haggregating, hsources, Json.rejoined]
  have hself : output = ⟨output.path, .bool false, [.string file]⟩ := by
    rw [← haggregating, ← hsources]
  refine ⟨haggregating, by rw [hrejoined], file, hfile, hsources, by rw [hrejoined], ?_⟩
  rw [hrejoined, ← Json.joined_eq_self_iff]
  constructor
  · intro he
    simpa [hsources] using congrArg Output.sources he
  · intro he
    rw [he, ← hself]

/-- A writer that was asked for one unit and has written it. -/
theorem exists_asked (source : Label) (fragments : List Fragment)
    (h : endsWith (write source fragments) (make (Path.parse "out") "Test") (.ofFiles .empty)
      (fun _ writer _ => writer.outputs.created.length = 1) = true) :
    ∃ writer emissions, Asked (Path.parse "out") "Test" writer [source] emissions ∧
      writer.outputs.created.length = 1 := by
  obtain ⟨written, writer, world, hends, hlength⟩ := exists_ends_of _ _ _ _ h
  exact ⟨writer, _, .ends .make hends, of_decide_eq_true hlength⟩

/-- A test of a function of the package `app`. -/
def moodTest : Fragment :=
  ⟨.string "Mood", .string "app", .string "fun Mood()", [], .string "", []⟩

/-- A unit of a file with quotes, a backslash, a control character and a character outside the
basic plane in its path, and so in that of the unit. -/
theorem mood_reads_back :
    let sources : List Label := [.string "ui/\"😀\"\x01\\.kt"]
    ∃ writer emissions, Asked (Path.parse "out") "Test" writer sources emissions ∧
      writer.outputs.created.length = 1 ∧
      (∃ members chars, writer.Manifests members chars) ∧
      (∀ emission ∈ emissions, emission.output (Path.parse "out") ∈ writer.outputs.created) ∧
      ∀ output ∈ writer.outputs.created,
        output.aggregating = .bool false ∧ output.rejoined.aggregating = .bool false ∧
        ∃ file : Text, .string file ∈ sources ∧ output.sources = [.string file] ∧
          output.rejoined.sources = [.string (Json.joined file)] ∧
          (output.rejoined = output ↔ Json.IsJoined file) := by
  intro sources
  obtain ⟨writer, emissions, hasked, hlength⟩ :=
    exists_asked (.string "ui/\"😀\"\x01\\.kt") [moodTest] (by decide +kernel)
  exact ⟨writer, emissions, hasked, hlength, manifest_reads_back hasked⟩

/-- Two units in a row that make up a character are read back as that character, which is another
path than the one that was recorded. -/
theorem pair_reads_back_joined :
    let file : Text := .unit 0x3d :: .unit 0x600 :: "/Card.kt"
    ∃ writer emissions members chars,
      Asked (Path.parse "out") "Test" writer [.string file] emissions ∧
      writer.outputs.created.length = 1 ∧
      (∀ output ∈ writer.outputs.created, output.sources = [.string file]) ∧
      writer.outputs.manifest.indented 0 = Text.ofChars chars ∧
      (∀ limit, Json.parse limit chars = .ok (.object members)) ∧
      (∀ member ∈ members, member.value =
        .object [⟨"aggregating", .bool false⟩, ⟨"sources", .array [.string "😀/Card.kt"]⟩]) ∧
      ¬ Outputs.Lists members writer.outputs.created := by
  intro file
  obtain ⟨writer, emissions, hasked, hlength⟩ :=
    exists_asked (.string file) [moodTest] (by decide +kernel)
  obtain ⟨members, chars, hmanifests⟩ := hasked.manifests
  have hjoined : Json.joined file = "😀/Card.kt" := by decide +kernel
  have hsources : ∀ output ∈ writer.outputs.created, output.sources = [.string file] := by
    intro output ho
    obtain ⟨other, hother, hsources⟩ := hasked.records.sources output ho
    exact List.mem_singleton.mp hother ▸ hsources
  have hrejoined : ∀ output ∈ writer.outputs.created,
      output.rejoined = ⟨output.path, .bool false, [.string "😀/Card.kt"]⟩ := by
    intro output ho
    simp [Output.rejoined, hasked.records.aggregating output ho, hsources output ho,
      Json.rejoined, hjoined]
  refine ⟨writer, emissions, members, chars, hasked, hlength, hsources, hmanifests.text,
    hmanifests.parse, fun member hm => ?_, fun hexact => ?_⟩
  · obtain ⟨_, hback, -, hvalue⟩ := (hmanifests.lists.mem_iff member).mp hm
    obtain ⟨output, ho, rfl⟩ := List.mem_map.mp hback
    rw [hvalue, hrejoined output ho]
  · obtain ⟨output, hone⟩ := List.length_eq_one_iff.mp hlength
    have ho : output ∈ writer.outputs.created := hone ▸ List.mem_singleton_self output
    have hsame := hmanifests.exact_iff.mp hexact output ho
    have he : [Json.string "😀/Card.kt"] = [.string file] := by
      rw [← hsources output ho, ← hsame, hrejoined output ho]
    have hne : Text.ofString "😀/Card.kt" ≠ file := by decide
    exact hne (Json.string.inj (List.cons.inj he).1)

end UnitWriter

end PreviewShots

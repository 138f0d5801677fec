import PreviewShots.Proofs.Plan

/-!
# Units by the plan

A unit is written when it has tests and no unit of its name was written. Then it is one
more output, its file is put in place, and its name is taken.
-/

open PreviewShots.Task

namespace PreviewShots

variable {world world' : World}

theorem Outputs.ends_create {output : Output} {content : Text} {outputs outputs' : Outputs}
    {u : Unit} : Ends (Outputs.create output content) outputs world u outputs' world' ↔
      outputs.has output.path = false ∧ pathFault? output.path.parent = none ∧
      pathFault? output.path = none ∧ content.isEncodable = true ∧
      outputs' = outputs.add output ∧ ∃ files,
        world.files.place? output.path (content.utf8?.getD .empty) = some files ∧
          world' = { world with files } := by
  simp only [Outputs.create, ends_bind, ends_get]
  constructor
  · rintro ⟨_, _, _, ⟨rfl, rfl, rfl⟩, h⟩
    split at h
    · obtain ⟨_, _, _, hthrow, -⟩ := ends_bind.mp h
      exact absurd hthrow ends_throw
    next hfree =>
    simp only [ends_bind, ends_modify] at h
    obtain ⟨_, _, _, hmake, _, _, _, hopen, _, _, _, ⟨rfl, rfl⟩, hfill⟩ := h
    obtain ⟨hparent, rfl, made, hmade, rfl⟩ := ends_makeDirectories.mp hmake
    obtain ⟨-, rfl, -⟩ := ends_openFile.mp hopen
    obtain ⟨hpath, hencodable, rfl, files, hwrite, rfl⟩ := ends_write.mp ⟨_, _, hopen, hfill⟩
    exact ⟨Bool.eq_false_iff.mpr hfree, hparent, hpath, hencodable, rfl, files,
      FileTree.place?_eq_some.mpr ⟨made, hmade, hwrite⟩, rfl⟩
  · rintro ⟨hfree, hparent, hpath, hencodable, rfl, files, hfiles, rfl⟩
    refine ⟨_, _, _, ⟨rfl, rfl, rfl⟩, ?_⟩
    obtain ⟨made, hmade, hwrite⟩ := FileTree.place?_eq_some.mp hfiles
    have hwritten : ∃ middle between,
        Ends (openFile output.path) outputs { world with files := made } () middle between ∧
          Ends (fill output.path content) (outputs.add output) between () (outputs.add output)
            { world with files } :=
      ends_write.mpr ⟨hpath, hencodable, rfl, files, hwrite, rfl⟩
    obtain ⟨_, between, hopen, hfill⟩ := hwritten
    obtain ⟨-, rfl, -⟩ := ends_openFile.mp hopen
    simp only [hfree, Bool.false_eq_true, ↓reduceIte, ends_bind, ends_modify]
    exact ⟨(), _, _, ends_makeDirectories.mpr ⟨hparent, rfl, made, hmade, rfl⟩, (), _, _, hopen,
      ⟨⟩, _, _, ⟨rfl, rfl⟩, hfill⟩

theorem Outputs.nodup_add {output : Output} {outputs : Outputs}
    (hfree : outputs.has output.path = false)
    (h : (outputs.created.map (·.path.toText)).Nodup) :
    ((outputs.add output).created.map (·.path.toText)).Nodup := by
  rw [add, List.map_append]
  refine List.nodup_append.mpr ⟨h, by simp, fun text ht other ho he => ?_⟩
  obtain ⟨earlier, hm, hpath⟩ := List.mem_map.mp ht
  obtain rfl := List.mem_singleton.mp ho
  simp only [has, List.any_eq_false, decide_eq_true_eq] at hfree
  exact hfree earlier hm (hpath.trans he)

namespace UnitWriter

theorem record?_clashes (unit : Text) (seen : List (Key × Key)) (fragments : List Fragment) :
    (clashes unit seen fragments).filterMap Notice.record? = [] := by
  induction fragments generalizing seen with
  | nil => rfl
  | cons fragment fragments ih =>
    simp only [clashes, List.filterMap_append, ih, List.append_nil]
    split <;> rfl

/-- What a unit has to be, whatever files there are, for it to be written. -/
structure Admits (writer : UnitWriter) (key : UnitKey) (package : Text)
    (fragments : List Fragment) : Prop where
  free : key.qualifiedName ∉ writer.written
  sound : (fragments.all (·.isNamed) && TestFile.isWritable fragments) = true
  package_eq : packageName? key.package = some package
  uncreated : writer.outputs.has (writer.outputs.pathFor package key.file "kt") = false
  parent : pathFault? (writer.outputs.pathFor package key.file "kt").parent = none
  path : pathFault? (writer.outputs.pathFor package key.file "kt") = none
  encodable : (TestFile.render package fragments).isEncodable = true

/-- What is told of a unit that is written. -/
def told (key : UnitKey) (fragments : List Fragment) : List Notice :=
  clashes key.qualifiedName [] (fragments.takeWhile (·.isNamed)) ++
    [.unitWritten key.qualifiedName fragments.length]

/-- A unit is passed over by its name, or it is admitted and its file is put in place. -/
theorem ends_write_cons_iff {writer writer' : UnitWriter} {source : Label} {first : Fragment}
    {rest : List Fragment} {written : Option UnitKey} :
    Ends (write source (first :: rest)) writer world written writer' world' ↔
      ∃ file, source.text? = some file ∧
      let key := writer.keyFor file first
      key.qualifiedName ∈ writer.written ∧ written = none ∧ writer' = writer ∧ world' = world ∨
      ∃ package, writer.Admits key package (first :: rest) ∧ written = some key ∧
        let path := writer.outputs.pathFor package key.file "kt"
        writer' = { writer with
          outputs := writer.outputs.add ⟨path, .bool false, [source]⟩
          written := writer.written ++ [key.qualifiedName] } ∧
        ∃ files, world.files.place? path
            ((TestFile.render package (first :: rest)).utf8?.getD .empty) = some files ∧
          world' = { world with files, notices := world.notices ++ told key (first :: rest) } := by
  simp only [write]
  cases hfile : source.text? with
  | none => simp [ends_throw]
  | some file =>
    simp only [Option.some.injEq, exists_eq_left', ends_bind, ends_get]
    constructor
    · rintro ⟨_, _, _, ⟨rfl, rfl, rfl⟩, h⟩
      split at h
      · next htaken =>
        obtain ⟨rfl, rfl, rfl⟩ := ends_pure.mp h
        exact .inl ⟨htaken, rfl, rfl, rfl⟩
      next hfree =>
      simp only [ends_bind, ends_notifyAll, ends_expect] at h
      obtain ⟨_, _, _, ⟨rfl, rfl⟩, _, _, _, ⟨hsound, rfl, rfl⟩, h⟩ := h
      split at h
      case h_2 => exact absurd h ends_throw
      next package hpackage =>
      simp only [onOutputs, ends_bind, ends_within, ends_modify, ends_notify, ends_pure,
        Outputs.ends_create] at h
      obtain ⟨_, _, _, ⟨_, ⟨huncreated, hparent, hpath, hencodable, rfl, files, hfiles, rfl⟩, rfl⟩,
        _, _, _, ⟨rfl, rfl⟩, _, _, _, ⟨rfl, rfl⟩, rfl, rfl, rfl⟩ := h
      exact .inr ⟨package, ⟨hfree, hsound, hpackage, huncreated, hparent, hpath, hencodable⟩, rfl,
        rfl, files, hfiles, by simp [told]⟩
    · rintro (⟨htaken, rfl, rfl, rfl⟩ | ⟨package, hadmits, rfl, rfl, files, hfiles, rfl⟩)
      · refine ⟨_, _, _, ⟨rfl, rfl, rfl⟩, ?_⟩
        rw [if_pos htaken]
        exact ends_pure.mpr ⟨rfl, rfl, rfl⟩
      · refine ⟨_, _, _, ⟨rfl, rfl, rfl⟩, ?_⟩
        rw [if_neg hadmits.free]
        simp only [ends_bind, ends_notifyAll, ends_expect]
        refine ⟨(), _, _, ⟨rfl, rfl⟩, (), _, _, ⟨hadmits.sound, rfl, rfl⟩, ?_⟩
        simp only [hadmits.package_eq, onOutputs, ends_bind, ends_within, ends_modify,
          ends_notify, ends_pure, Outputs.ends_create]
        exact ⟨(), _, _, ⟨_, ⟨hadmits.uncreated, hadmits.parent, hadmits.path, hadmits.encodable, rfl,
          files, hfiles, rfl⟩, rfl⟩, ⟨⟩, _, _, ⟨rfl, rfl⟩, (), _, _, ⟨rfl, rfl⟩, trivial, rfl,
          by simp [told]⟩

theorem ends_write_cons {writer writer' : UnitWriter} {source : Label} {first : Fragment}
    {rest : List Fragment} {written : Option UnitKey}
    (h : Ends (write source (first :: rest)) writer world written writer' world') :
    ∃ file, source.text? = some file ∧
      let key := writer.keyFor file first
      if key.qualifiedName ∈ writer.written then written = none ∧ writer' = writer ∧ world' = world
      else written = some key ∧ ∃ package, packageName? key.package = some package ∧
        let path := writer.outputs.pathFor package key.file "kt"
        writer.outputs.has path = false ∧ writer' = { writer with
          outputs := writer.outputs.add ⟨path, .bool false, [source]⟩
          written := writer.written ++ [key.qualifiedName] } ∧
        world'.warned = world.warned ∧
        (TestFile.render package (first :: rest)).isEncodable = true ∧
        world.files.place? path ((TestFile.render package (first :: rest)).utf8?.getD .empty) =
          some world'.files := by
  obtain ⟨file, hfile, ⟨htaken, rfl, rfl, rfl⟩ | ⟨package, hadmits, rfl, rfl, files, hfiles, rfl⟩⟩ :=
    ends_write_cons_iff.mp h
  · exact ⟨file, hfile, by simp [htaken]⟩
  · refine ⟨file, hfile, ?_⟩
    simp only [hadmits.free, ↓reduceIte]
    refine ⟨trivial, package, hadmits.package_eq, hadmits.uncreated, rfl, ?_, hadmits.encodable,
      hfiles⟩
    simp [World.warned, told, record?_clashes, Notice.record?]

end UnitWriter

end PreviewShots

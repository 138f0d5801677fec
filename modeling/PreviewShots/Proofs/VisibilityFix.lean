import PreviewShots.Proofs.Footprint
import PreviewShots.Proofs.Grouping

/-!
# What the visibility fix does to files

A fix that comes to its end has removed the report, if there was one, and rewritten files
that were there and that lines of the report name. It touches nothing else.
-/

open PreviewShots.Task

namespace PreviewShots

section

variable {σ : Type} {state state' : σ} {world world' : World}

theorem Task.ends_print {line : Text} {u : Unit} :
    Ends (Task.print line) state world u state' world' ↔
      state' = state ∧ world' = { world with printed := world.printed ++ [line] } := by
  simp [Ends, run_print, eq_comm]

/-- No file can have the path, or nothing is there. -/
def FileTree.IsAbsent (tree : FileTree) (path : Path) : Prop :=
  pathFault? path ≠ none ∨ tree.isThere? path = some false

theorem Task.isAbsent_of_ends_isThere {path : Path}
    (h : Ends (isThere path) state world false state' world') : world.files.IsAbsent path := by
  cases hpath : pathFault? path with
  | some fault => exact .inl (by simp [hpath])
  | none => exact .inr ((ends_isThere hpath).mp h).1

namespace VisibilityFix

theorem ends_fixFile {path : Path} {names : List Text} {count : Nat}
    (h : Ends (fixFile path names) state world count state' world') :
    state' = state ∧ FileTree.Rewrites (fun location => world.files.locate path = .found location)
      world.files world'.files := by
  unfold fixFile at h
  obtain ⟨content, _, _, hread, hfix⟩ := ends_bind.mp h
  simp only [readText, ends_bind, ends_readChars, ends_pure] at hread
  obtain ⟨_, _, _, ⟨-, ⟨bytes, _, hbytes, -, -⟩, rfl, rfl⟩, -, rfl, rfl⟩ := hread
  dsimp only at hfix
  split at hfix
  · obtain ⟨-, rfl, rfl⟩ := ends_pure.mp hfix
    exact ⟨rfl, .refl _ _⟩
  · simp only [ends_bind, ends_writeText, ends_print, ends_pure] at hfix
    obtain ⟨_, _, _, ⟨-, -, rfl, files, hwrite, rfl⟩, _, _, _, ⟨rfl, rfl⟩, -, rfl, rfl⟩ := hfix
    exact ⟨rfl, FileTree.rewrites_of_write? hbytes hwrite⟩

/-- A path of the groups leads to the location. -/
def Names (base : Option Path) (groups : List (Text × List Text)) (tree : FileTree)
    (location : Location) : Prop :=
  ∃ entry ∈ groups, tree.locate (sourcePath base entry.1) = .found location

theorem ends_fixFiles {base : Option Path} {groups : List (Text × List Text)} {total : Nat}
    (h : Ends (fixFiles base groups) state world total state' world') :
    state' = state ∧
      FileTree.Rewrites (Names base groups world.files) world.files world'.files := by
  induction groups generalizing state world total with
  | nil =>
    obtain ⟨-, rfl, rfl⟩ := ends_pure.mp h
    exact ⟨rfl, .refl _ _⟩
  | cons first rest ih =>
    obtain ⟨path, names⟩ := first
    unfold fixFiles at h
    obtain ⟨there, state, world, hthere, hfix⟩ := ends_bind.mp h
    obtain ⟨rfl, rfl, -⟩ := of_ends_isThere hthere
    have hrest {tree : FileTree} (hlocate : ∀ path, tree.locate path = world.files.locate path)
        (location : Location) (hn : Names base rest tree location) :
        Names base ((path, names) :: rest) world.files location := by
      obtain ⟨entry, hm, hl⟩ := hn
      exact ⟨entry, List.mem_cons_of_mem _ hm, hlocate _ ▸ hl⟩
    cases there with
    | true =>
      simp only [↓reduceIte, ends_bind, ends_pure] at hfix
      obtain ⟨count, _, between, hone, later, _, _, hlater, -, rfl, rfl⟩ := hfix
      obtain ⟨rfl, hfirst⟩ := ends_fixFile hone
      obtain ⟨rfl, hothers⟩ := ih hlater
      refine ⟨rfl, (hfirst.mono fun location hl => ?_).trans (hothers.mono (hrest hfirst.locate))⟩
      exact ⟨(path, names), List.mem_cons_self, hl⟩
    | false =>
      simp only [Bool.false_eq_true, ↓reduceIte, ends_bind, ends_notify] at hfix
      obtain ⟨_, _, _, ⟨rfl, rfl⟩, hlater⟩ := hfix
      obtain ⟨rfl, hothers⟩ := ih hlater
      exact ⟨rfl, hothers.mono (hrest fun _ => rfl)⟩

/-- A line of the report names a file at the location. -/
def IsListed (tree : FileTree) (report : Path) (root : Label) (location : Location) : Prop :=
  ∃ line ∈ Plan.recordsAt tree report, ∃ record, Record.ofLine? line = some record ∧
    ∃ base, base? root = some base ∧ tree.locate (sourcePath base record.path) = .found location

theorem isListed_of_names {tree : FileTree} {report : Path} {root : Label} {base : Option Path}
    {location : Location} (hbase : base? root = some base)
    (h : Names base (group (Plan.recordsAt tree report).eraseDups).1 tree location) :
    IsListed tree report root location := by
  obtain ⟨⟨path, names⟩, hm, hlocate⟩ := h
  rw [group_eq] at hm
  obtain ⟨_, hpath, he⟩ := List.mem_map.mp hm
  cases he
  obtain ⟨record, hrecord, rfl⟩ := List.mem_map.mp (List.mem_eraseDups.mp hpath)
  obtain ⟨line, hline, hof⟩ := List.mem_filterMap.mp hrecord
  exact ⟨line, List.mem_eraseDups.mp hline, record, hof, base, hbase, hlocate⟩

/-- What is left of the files by a fix: the report is gone, and of the other files only
such differ as were there and are listed. They are still there. -/
structure Leaves (report : Path) (root : Label) (tree tree' : FileTree) : Prop where
  absent : tree'.IsAbsent report
  others : ∀ location, tree.locate report ≠ .found location →
    tree'.at? location = tree.at? location ∨ IsListed tree report root location ∧
      (∃ old, tree.at? location = some (.file old)) ∧ ∃ new, tree'.at? location = some (.file new)

theorem leaves_of_remove? {report : Path} {root : Label} {tree between tree' : FileTree}
    (h : FileTree.Rewrites (IsListed tree report root) tree between)
    (hremove : between.remove? report = some tree') : Leaves report root tree tree' := by
  obtain ⟨location, hlocate, hd, rfl⟩ := FileTree.remove?_eq_some hremove
  have ha := FileTree.isAbove_of_not_isDirectory hd
  refine ⟨.inr ?_, fun other hother => ?_⟩
  · have hstill := FileTree.locate_congr (FileTree.erase_toMedium ..)
      (FileTree.isDirectory_erase hd) report
    simp [FileTree.isThere?, hstill, hlocate, FileTree.at?_erase ha]
  · have hne : other ≠ location := by
      rintro rfl
      exact hother ((h.locate report).symm.trans hlocate)
    simpa [FileTree.at?_erase ha, hne] using h.entries other

theorem ends_nothingFound {count : Nat}
    (h : Ends nothingFound state world count state' world') :
    state' = state ∧ world'.files = world.files := by
  simp only [nothingFound, ends_bind, ends_print, ends_pure] at h
  obtain ⟨_, _, _, ⟨rfl, rfl⟩, -, rfl, rfl⟩ := h
  exact ⟨rfl, rfl⟩

theorem ends_remove {path : Path} {u : Unit}
    (h : Ends (require (Host.remove path)) state world u state' world') :
    state' = state ∧ world.files.remove? path = some world'.files := by
  obtain ⟨rfl, hrun⟩ := ends_require.mp h
  obtain ⟨files, hfiles, rfl⟩ := World.attempt_eq.mp hrun
  exact ⟨rfl, hfiles⟩

theorem ends_run {report : Path} {root : Label} {total : Nat}
    (h : Ends (run report root) state world total state' world') :
    state' = state ∧ Leaves report root world.files world'.files := by
  unfold run at h
  obtain ⟨there, state, world, hthere, hrun⟩ := ends_bind.mp h
  obtain ⟨rfl, rfl, hpath⟩ := of_ends_isThere hthere
  cases there with
  | false =>
    obtain ⟨rfl, hfiles⟩ := ends_nothingFound hrun
    refine ⟨rfl, hfiles ▸ isAbsent_of_ends_isThere hthere, fun location _ => .inl ?_⟩
    rw [hfiles]
  | true =>
    obtain ⟨records, state, world, hread, hfound⟩ := ends_bind.mp hrun
    obtain ⟨-, rfl, rfl, rfl⟩ := (ReportWriter.ends_readReport (hpath rfl).1).mp hread
    split at hfound
    · -- a report without records goes too, and the root is not looked at
      obtain ⟨_, _, between, hremove, hnothing⟩ := ends_bind.mp hfound
      obtain ⟨rfl, hgone⟩ := ends_remove hremove
      obtain ⟨rfl, hfiles⟩ := ends_nothingFound hnothing
      exact ⟨rfl, hfiles ▸ leaves_of_remove? (.refl _ _) hgone⟩
    · simp only [ends_bind, ends_ofOption, ends_notifyAll, ends_print, ends_pure] at hfound
      obtain ⟨base, _, _, ⟨hbase, rfl, rfl⟩, _, _, _, ⟨rfl, rfl⟩, _, _, _, hfix, _, _, _, hremove,
        _, _, _, ⟨rfl, rfl⟩, -, rfl, rfl⟩ := hfound
      obtain ⟨rfl, hrewrites⟩ := ends_fixFiles hfix
      obtain ⟨rfl, hgone⟩ := ends_remove hremove
      exact ⟨rfl, leaves_of_remove? (hrewrites.mono fun _ => isListed_of_names hbase) hgone⟩

end VisibilityFix

end

end PreviewShots

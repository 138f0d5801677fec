import PreviewShots.Marker.Walk
import PreviewShots.Proofs.Label

/-!
# Walks end, and what their ends show

`Walks` is the walk without a bound on its length, with the names whose annotations
it goes through. A bounded walk that may take a step for each target of an edge is
such a walk (`walks_walkFrom`), and it goes through no name twice (`Walks.nodup`). At
a marker the whole path back to the start leads there; at the end of all paths every
name seen is settled as no marker or has all its targets seen too.
-/

namespace PreviewShots.Marker

variable {edges : Label → List Label} {lookup : Label → Option Bool}

-- ---------------------------------------------------------------------------
-- The annotations of one class
-- ---------------------------------------------------------------------------

/-- What one class adds: new names, each once and none a marker, those without a
verdict among them to be walked on. -/
structure Onward (lookup : Label → Option Bool) (names seen found after more : List Label) :
    Prop where
  fresh : ∃ new, after = new ++ seen ∧ more = new.filter (lookup · = none) ++ found ∧
    (new.map Label.key).Nodup ∧ ∀ name ∈ new, name ∈ names ∧ name.isScalar ∧
      lookup name ≠ some true ∧ Label.has seen name = false
  seen : ∀ name ∈ names, Label.has after name

theorem step_marker {seen found names after : List Label}
    (h : step lookup seen found names = .marker after) :
    ∃ name ∈ names, name.isScalar ∧ lookup name = some true := by
  fun_induction step lookup seen found names with
  | case1 | case2 => simp at h
  | case4 seen found name names hs hh hl => exact ⟨name, by simp, by simpa using hs, hl⟩
  | case3 _ _ _ _ _ _ ih | case5 _ _ _ _ _ _ _ ih | case6 _ _ _ _ _ _ _ ih =>
    obtain ⟨other, hm, ho⟩ := ih h
    exact ⟨other, List.mem_cons_of_mem _ hm, ho⟩

theorem step_stuck {seen found names after : List Label}
    (h : step lookup seen found names = .stuck after) :
    ∃ name ∈ names, name.isScalar = false := by
  fun_induction step lookup seen found names with
  | case1 | case4 => simp at h
  | case2 seen found name names hs => exact ⟨name, by simp, by simpa using hs⟩
  | case3 _ _ _ _ _ _ ih | case5 _ _ _ _ _ _ _ ih | case6 _ _ _ _ _ _ _ ih =>
    obtain ⟨other, hm, ho⟩ := ih h
    exact ⟨other, List.mem_cons_of_mem _ hm, ho⟩

/-- A new name in front of those that are looked at afterwards. -/
theorem Onward.cons {name : Label} {names seen found after more : List Label}
    (hs : name.isScalar) (hh : Label.has seen name = false) (hl : lookup name ≠ some true)
    (h : Onward lookup names (name :: seen) (if lookup name = none then name :: found else found)
      after more) :
    Onward lookup (name :: names) seen found after more := by
  obtain ⟨⟨new, rfl, rfl, hnodup, hnew⟩, hseen⟩ := h
  have hkey : ∀ other ∈ new, other.key ≠ name.key := by
    intro other hm hk
    have := (hnew other hm).2.2.2
    simp [Label.has, hk] at this
  refine ⟨⟨new ++ [name], by simp, ?_, ?_, ?_⟩, ?_⟩
  · by_cases hn : lookup name = none <;> simp [List.filter_append, hn]
  · rw [List.map_append, List.nodup_append]
    refine ⟨hnodup, by simp, ?_⟩
    rintro key hm _ hk rfl
    obtain ⟨other, ho, rfl⟩ := List.mem_map.mp hm
    exact hkey other ho (by simpa using hk)
  · intro other hm
    rcases List.mem_append.mp hm with hm | hm
    · obtain ⟨hin, hscalar, htrue, hfresh⟩ := hnew other hm
      refine ⟨List.mem_cons_of_mem _ hin, hscalar, htrue, ?_⟩
      simp only [Label.has, List.any_cons, Bool.or_eq_false_iff] at hfresh ⊢
      exact hfresh.2
    · obtain rfl := List.mem_singleton.mp hm
      exact ⟨List.mem_cons_self, hs, hl, hh⟩
  · intro other hm
    rcases List.mem_cons.mp hm with rfl | hm
    · simp [Label.has]
    · exact hseen other hm

theorem step_onward {seen found names after more : List Label}
    (h : step lookup seen found names = .onward after more) :
    Onward lookup names seen found after more := by
  fun_induction step lookup seen found names with
  | case1 =>
    obtain ⟨rfl, rfl⟩ : _ = after ∧ _ = more := by simpa using h
    exact ⟨⟨[], by simp⟩, by simp⟩
  | case2 | case4 => simp at h
  | case3 seen found name names _ hh ih =>
    obtain ⟨⟨new, rfl, rfl, hnodup, hnew⟩, hseen⟩ := ih h
    refine ⟨⟨new, rfl, rfl, hnodup, fun other hm => ?_⟩, fun other hm => ?_⟩
    · obtain ⟨hin, hrest⟩ := hnew other hm
      exact ⟨List.mem_cons_of_mem _ hin, hrest⟩
    · rcases List.mem_cons.mp hm with rfl | hm
      · simp only [Label.has, List.any_append, Bool.or_eq_true] at hh ⊢
        exact .inr hh
      · exact hseen other hm
  | case5 seen found name names hs hh hl ih =>
    exact .cons (by simpa using hs) (by simpa using hh) (by simp [hl]) (by simpa [hl] using ih h)
  | case6 seen found name names hs hh hl ih =>
    exact .cons (by simpa using hs) (by simpa using hh) (by simp [hl]) (by simpa [hl] using ih h)

-- ---------------------------------------------------------------------------
-- Walks without a bound
-- ---------------------------------------------------------------------------

/-- The walk from the pending paths, the names it goes through, and where it ends. -/
inductive Walks (edges : Label → List Label) (lookup : Label → Option Bool) :
    List (List Label) → List Label → List Label → Outcome → Prop
  | exhausted {seen} : Walks edges lookup [] seen [] (.exhausted seen)
  | reached {name path pending seen after} : step lookup seen [] (edges name) = .marker after →
      Walks edges lookup ((name :: path) :: pending) seen [name] (.reached (name :: path) after)
  | stuck {name path pending seen after} : step lookup seen [] (edges name) = .stuck after →
      Walks edges lookup ((name :: path) :: pending) seen [name] (.stuck after)
  | onward {name path pending seen after found rest outcome} :
      step lookup seen [] (edges name) = .onward after found →
      Walks edges lookup (pending ++ found.reverse.map (· :: name :: path)) after rest outcome →
      Walks edges lookup ((name :: path) :: pending) seen (name :: rest) outcome

/-- The keys of the names that wait to be gone through. -/
def waiting (pending : List (List Label)) : List Key :=
  pending.flatMap fun path => (path.head?.map Label.key).toList

theorem waiting_onward (pending : List (List Label)) (found path : List Label) :
    waiting (pending ++ found.reverse.map (· :: path)) =
      waiting pending ++ (found.map Label.key).reverse := by
  simp [waiting, List.flatMap_append, List.flatMap_map, ← List.map_eq_flatMap, ← List.map_reverse]

/-- A walk goes through each name at most once, since a name waits once and is seen by then. -/
theorem Walks.nodup {pending : List (List Label)} {seen through : List Label} {outcome : Outcome}
    (h : Walks edges lookup pending seen through outcome)
    (hwaiting : (waiting pending).Nodup)
    (hseen : ∀ key ∈ waiting pending, key ∈ seen.map Label.key) :
    (through.map Label.key).Nodup ∧
      ∀ key ∈ through.map Label.key, key ∈ waiting pending ∨ key ∉ seen.map Label.key := by
  induction h with
  | exhausted => simp
  | reached _ | stuck _ => simp [waiting]
  | @onward name path pending seen after found rest outcome hstep _ ih =>
    obtain ⟨⟨new, rfl, hfound, hnodup, hnew⟩, -⟩ := step_onward hstep
    rw [List.append_nil] at hfound
    have hcons : waiting ((name :: path) :: pending) = name.key :: waiting pending := rfl
    rw [hcons] at hwaiting hseen ⊢
    obtain ⟨hname, hpending⟩ := List.nodup_cons.mp hwaiting
    have hunseen : ∀ key ∈ found.map Label.key, key ∉ seen.map Label.key := by
      intro key hm hs
      obtain ⟨other, ho, rfl⟩ := List.mem_map.mp hm
      exact Label.not_mem_keys (hnew other (List.mem_filter.mp (hfound ▸ ho)).1).2.2.2 hs
    have hmem : ∀ key, key ∈ waiting (pending ++ found.reverse.map (· :: name :: path)) ↔
        key ∈ waiting pending ∨ key ∈ found.map Label.key := by
      intro key
      rw [waiting_onward, List.mem_append, List.mem_reverse]
    have hwaiting' : (waiting (pending ++ found.reverse.map (· :: name :: path))).Nodup := by
      rw [waiting_onward, List.nodup_append]
      refine ⟨hpending, (List.reverse_perm _).nodup_iff.mpr (hnodup.sublist ?_), ?_⟩
      · exact (hfound ▸ List.filter_sublist).map _
      · rintro key hm _ hf rfl
        exact hunseen key (List.mem_reverse.mp hf) (hseen key (List.mem_cons_of_mem _ hm))
    obtain ⟨hrest, hthrough⟩ := ih hwaiting' (by
      intro key hm
      rw [List.map_append, List.mem_append]
      rcases (hmem key).mp hm with hm | hm
      · exact .inr (hseen key (List.mem_cons_of_mem _ hm))
      · exact .inl (((hfound ▸ List.filter_sublist).map _).subset hm))
    -- what comes later waits already, is found here, or is seen later still
    have hlater : ∀ key ∈ rest.map Label.key,
        key ∈ waiting pending ∨ key ∉ seen.map Label.key := by
      intro key hm
      rcases hthrough key hm with hw | hs
      · exact ((hmem key).mp hw).imp_right (hunseen key)
      · exact .inr fun h => hs (by rw [List.map_append]; exact List.mem_append_right _ h)
    refine ⟨List.nodup_cons.mpr ⟨fun hm => ?_, hrest⟩, fun key hm => ?_⟩
    · rcases hlater _ hm with hw | hs
      · exact hname hw
      · exact hs (hseen _ List.mem_cons_self)
    · rcases List.mem_cons.mp hm with rfl | hm
      · exact .inl List.mem_cons_self
      · exact (hlater key hm).imp_left (List.mem_cons_of_mem _)

-- ---------------------------------------------------------------------------
-- The bound
-- ---------------------------------------------------------------------------

/-- What is seen is the start or a target, each once: that bounds the names that can
still come to wait. -/
structure Bounded (targets : List Key) (start : Key) (seen : List Label) : Prop where
  nodup : (seen.map Label.key).Nodup
  subset : seen.map Label.key ⊆ start :: targets

theorem Bounded.length_le {targets : List Key} {start : Key} {seen : List Label}
    (h : Bounded targets start seen) : seen.length ≤ targets.length + 1 := by
  simpa using h.nodup.length_le_of_subset h.subset

theorem Bounded.onward {targets : List Key} {start : Key} {names seen found after more : List Label}
    (h : Bounded targets start seen) (htargets : ∀ name ∈ names, name.key ∈ targets)
    (ho : Onward lookup names seen found after more) : Bounded targets start after := by
  obtain ⟨⟨new, rfl, -, hnodup, hnew⟩, -⟩ := ho
  constructor
  · rw [List.map_append, List.nodup_append]
    refine ⟨hnodup, h.nodup, ?_⟩
    rintro key hm _ hs rfl
    obtain ⟨name, hn, rfl⟩ := List.mem_map.mp hm
    exact Label.not_mem_keys (hnew name hn).2.2.2 hs
  · intro key hm
    rw [List.map_append, List.mem_append] at hm
    rcases hm with hm | hm
    · obtain ⟨name, hn, rfl⟩ := List.mem_map.mp hm
      exact List.mem_cons_of_mem _ (htargets name (hnew name hn).1)
    · exact h.subset hm

/-- A walk that has a step for each pending path and each name that can still come
is not cut short. -/
theorem walks_of_lt {targets : List Key} {start : Key}
    (htargets : ∀ name, ∀ target ∈ edges name, target.key ∈ targets) {fuel : Nat}
    {pending : List (List Label)} {seen : List Label} (hne : [] ∉ pending)
    (hb : Bounded targets start seen)
    (hfuel : pending.length + (targets.length + 1 - seen.length) < fuel) :
    ∃ through, Walks edges lookup pending seen through (walk edges lookup fuel pending seen) := by
  induction fuel generalizing pending seen with
  | zero => omega
  | succ fuel ih =>
    match pending with
    | [] => exact ⟨[], .exhausted⟩
    | [] :: _ => simp at hne
    | (name :: path) :: pending =>
      simp only [walk]
      cases hstep : step lookup seen [] (edges name) with
      | marker after => exact ⟨[name], .reached hstep⟩
      | stuck after => exact ⟨[name], .stuck hstep⟩
      | onward after found =>
        have ho := step_onward hstep
        have hb' := hb.onward (htargets name) ho
        obtain ⟨⟨new, hafter, hfound, -⟩, -⟩ := ho
        have hlength : found.length + seen.length ≤ after.length := by
          have := List.length_filter_le (lookup · = none) new
          simp only [hafter, hfound, List.append_nil, List.length_append]
          omega
        have hle := hb'.length_le
        have hne' : [] ∉ pending ++ found.reverse.map (· :: name :: path) := by simpa using hne
        obtain ⟨through, hw⟩ := ih hne' hb' (by
          simp only [List.length_cons] at hfuel
          simp only [List.length_append, List.length_map, List.length_reverse]
          omega)
        exact ⟨name :: through, .onward hstep hw⟩

theorem walks_walkFrom {targets : List Key}
    (htargets : ∀ name, ∀ target ∈ edges name, target.key ∈ targets) (start : Label) :
    ∃ through, Walks edges lookup [[start]] [start] through
      (walkFrom edges lookup targets.length start) :=
  have hbounded : Bounded targets start.key [start] := ⟨by simp, by simp⟩
  walks_of_lt htargets (by simp) hbounded (by
    simp only [List.length_singleton]
    omega)

-- ---------------------------------------------------------------------------
-- Where walks end
-- ---------------------------------------------------------------------------

/-- A path that leads back to the start, along names without a verdict. -/
inductive Trail (edges : Label → List Label) (lookup : Label → Option Bool) (start : Label) :
    List Label → Prop
  | start : lookup start = none → Trail edges lookup start [start]
  | onward {next name path} : Trail edges lookup start (name :: path) → next ∈ edges name →
      next.isScalar → lookup next = none → Trail edges lookup start (next :: name :: path)

theorem Trail.found {start name : Label} {path names after found : List Label}
    (h : Trail edges lookup start (name :: path))
    (ho : Onward lookup (edges name) names [] after found) :
    ∀ trail ∈ found.reverse.map (· :: name :: path), Trail edges lookup start trail := by
  obtain ⟨⟨new, -, hfound, -, hnew⟩, -⟩ := ho
  intro trail hm
  obtain ⟨next, hn, rfl⟩ := List.mem_map.mp hm
  rw [hfound, List.append_nil] at hn
  obtain ⟨hn, hl⟩ := List.mem_filter.mp (List.mem_reverse.mp hn)
  exact .onward h (hnew next hn).1 (hnew next hn).2.1 (by simpa using hl)

/-- A walk that meets a marker meets it from the end of a trail. -/
theorem Walks.trail {start : Label} {pending : List (List Label)} {seen through : List Label}
    {outcome : Outcome} (h : Walks edges lookup pending seen through outcome)
    (hp : ∀ path ∈ pending, Trail edges lookup start path) {path after : List Label}
    (ho : outcome = .reached path after) :
    Trail edges lookup start path ∧ ∃ name rest, path = name :: rest ∧
      ∃ target ∈ edges name, target.isScalar ∧ lookup target = some true := by
  induction h with
  | exhausted | stuck _ => simp at ho
  | @reached name path' _ _ _ hstep =>
    obtain ⟨rfl, rfl⟩ : name :: path' = path ∧ _ = after := by simpa using ho
    exact ⟨hp _ List.mem_cons_self, name, path', rfl, step_marker hstep⟩
  | onward hstep _ ih =>
    refine ih (fun trail hm => ?_) ho
    rcases List.mem_append.mp hm with hm | hm
    · exact hp trail (List.mem_cons_of_mem _ hm)
    · exact (hp _ List.mem_cons_self).found (step_onward hstep) trail hm

/-- A name that was seen is held to be no marker, or it waits, or all its targets are
seen as well. -/
def Surveyed (edges : Label → List Label) (lookup : Label → Option Bool)
    (pending : List (List Label)) (seen : List Label) : Prop :=
  ∀ name ∈ seen, lookup name = some false ∨
    lookup name = none ∧ ((∃ path, name :: path ∈ pending) ∨
      ∀ target ∈ edges name, Label.has seen target)

theorem Surveyed.onward {name : Label} {path seen after found : List Label}
    {pending : List (List Label)} (h : Surveyed edges lookup ((name :: path) :: pending) seen)
    (ho : Onward lookup (edges name) seen [] after found) :
    Surveyed edges lookup (pending ++ found.reverse.map (· :: name :: path)) after := by
  obtain ⟨⟨new, rfl, hfound, -, hnew⟩, hseen⟩ := ho
  intro other hm
  rcases List.mem_append.mp hm with hm | hm
  · obtain ⟨-, -, htrue, -⟩ := hnew other hm
    rcases hl : lookup other with _ | _ | _
    · refine .inr ⟨rfl, .inl ⟨name :: path, List.mem_append_right _ ?_⟩⟩
      refine List.mem_map.mpr ⟨other, List.mem_reverse.mpr ?_, rfl⟩
      simp [hfound, hm, hl]
    · exact .inl rfl
    · exact absurd hl htrue
  · rcases h other hm with hf | ⟨hn, ⟨path', hp⟩ | hall⟩
    · exact .inl hf
    · refine .inr ⟨hn, ?_⟩
      rcases List.mem_cons.mp hp with he | hp
      · obtain ⟨rfl, rfl⟩ : other = name ∧ path' = path := by simpa using he
        exact .inr hseen
      · exact .inl ⟨path', List.mem_append_left _ hp⟩
    · refine .inr ⟨hn, .inr fun target ht => ?_⟩
      have := hall target ht
      simp only [Label.has, List.any_append, Bool.or_eq_true] at this ⊢
      exact .inr this

/-- A walk that runs out of paths has seen all it could, the start with it. -/
theorem Walks.survey {pending : List (List Label)} {seen through : List Label} {outcome : Outcome}
    (h : Walks edges lookup pending seen through outcome)
    (hs : Surveyed edges lookup pending seen) {after : List Label}
    (ho : outcome = .exhausted after) :
    Surveyed edges lookup [] after ∧ ∀ name ∈ seen, name ∈ after := by
  induction h with
  | @exhausted seen =>
    obtain rfl : seen = after := by simpa using ho
    exact ⟨hs, fun _ => id⟩
  | reached _ | stuck _ => simp at ho
  | onward hstep _ ih =>
    have hon := step_onward hstep
    obtain ⟨hsurvey, hafter⟩ := ih (hs.onward hon) ho
    obtain ⟨⟨new, rfl, -⟩, -⟩ := hon
    exact ⟨hsurvey, fun name hm => hafter name (List.mem_append_right _ hm)⟩

/-- A walk is stuck only at a target that cannot be looked up. -/
theorem Walks.exists_compound {pending : List (List Label)} {seen through : List Label}
    {outcome : Outcome} (h : Walks edges lookup pending seen through outcome) {after : List Label}
    (ho : outcome = .stuck after) : ∃ name, ∃ target ∈ edges name, target.isScalar = false := by
  induction h with
  | exhausted | reached _ => simp at ho
  | @stuck name _ _ _ _ hstep => exact ⟨name, step_stuck hstep⟩
  | onward _ _ ih => exact ih ho

end PreviewShots.Marker

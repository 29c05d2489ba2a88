import MathMarkup.Proofs.Settling

/-!
# The steps of a callback on the files

In a scene a product is put in place and the file of the other kind is removed at two moments. Here
these are found again in what `place` does to the files: it replaces the one and removes the other,
and changes nothing else that a scene shows. The directory of the source has to be there, and
neither of the two paths may lie at or below the other.
-/

namespace MathMarkup

/-! ## Entries -/

namespace Files

variable {fs : Files} {path q : Text} {e : Entry}

theorem lookup_map_entry (path q : Text) (e : Entry) (l : List (Text × Entry)) :
    (l.map fun (p, old) => if p == path then (p, e) else (p, old)).lookup q =
      (l.lookup q).map fun old => if q = path then e else old := by
  induction l with
  | nil => rfl
  | cons x l ih =>
      obtain ⟨p, old⟩ := x
      rw [List.map_cons]
      by_cases hq : q = p
      · subst hq
        by_cases hpath : q = path <;> simp [hpath]
      · have hne : (q == p) = false := beq_eq_false_iff_ne.mpr hq
        cases hpath : p == path with
        | true => simp only [hpath, if_true, List.lookup_cons, hne, ih]
        | false => simp only [hpath, Bool.false_eq_true, if_false, List.lookup_cons, hne, ih]

theorem lookup_filter_entry (f : Text → Bool) (q : Text) (l : List (Text × Entry)) :
    (l.filter fun x => f x.1).lookup q = if f q then l.lookup q else none := by
  induction l with
  | nil => simp
  | cons x l ih =>
      obtain ⟨p, old⟩ := x
      by_cases hq : q = p
      · subst hq
        cases hf : f q with
        | true => simp [hf]
        | false => simpa [hf] using ih
      · have hne : (q == p) = false := beq_eq_false_iff_ne.mpr hq
        cases hf : f p with
        | true => simp only [List.filter_cons, hf, if_true, List.lookup_cons, hne, ih]
        | false => simpa [List.filter_cons, hf, List.lookup_cons, hne] using ih

theorem lookup_put (fs : Files) (path q : Text) (e : Entry) :
    (fs.put path e).entries.lookup q = if q = path then some e else fs.entries.lookup q := by
  unfold put
  split
  · rename_i hthere
    rw [lookup_map_entry]
    by_cases hq : q = path
    · subst hq
      obtain ⟨x, hx, hkey⟩ := List.any_eq_true.mp hthere
      cases hfound : fs.entries.lookup q with
      | some old => simp
      | none =>
          have hne := List.lookup_eq_none_iff.mp hfound x hx
          exact absurd (beq_iff_eq.mp hkey).symm (bne_iff_ne.mp hne)
    · simp [hq]
  · rename_i hmissing
    rw [List.lookup_append]
    by_cases hq : q = path
    · subst hq
      have hfound : fs.entries.lookup q = none := by
        refine List.lookup_eq_none_iff.mpr fun x hx => bne_iff_ne.mpr ?_
        rintro rfl
        exact hmissing (List.any_eq_true.mpr ⟨x, hx, beq_self_eq_true _⟩)
      simp [hfound]
    · have hne : (q == path) = false := beq_eq_false_iff_ne.mpr hq
      simp [List.lookup_cons, hne, hq]

/-- An entry that is put at a path is there, and all others are as they were. -/
theorem put_entry (hpath : path ≠ Text.ofString ".") :
    Files.entry? (fs.put path e) q = if q = path then some e else fs.entry? q := by
  unfold entry?
  rw [lookup_put]
  by_cases hq : q = path
  · subst hq
    simp [hpath]
  · simp [hq]

/-- An entry that is erased goes with what lies below it. -/
theorem erase_entry (hq : q ≠ Text.ofString ".") :
    Files.entry? (fs.erase path) q =
      if q ≠ path ∧ Text.startsWith q (path ++ "/") = false then fs.entry? q else none := by
  have hlookup :=
    lookup_filter_entry (fun p => p != path && !Text.startsWith p (path ++ "/")) q fs.entries
  unfold entry? erase
  simp only [beq_eq_false_iff_ne.mpr hq, Bool.false_eq_true, if_false]
  rw [hlookup]
  simp

/-- The text at a path. -/
def text? (fs : Files) (path : Text) : Option Text :=
  match fs.entry? (Path.clean path) with
  | some (.text t) => some t
  | _ => none

/-- Of the texts all are left but those at and below a path that is erased. -/
theorem text?_erase (fs : Files) (path q : Text) :
    (fs.erase path).text? q =
      if Path.clean q ≠ path ∧ Text.startsWith (Path.clean q) (path ++ "/") = false then fs.text? q
      else none := by
  unfold text?
  by_cases hq : Path.clean q = Text.ofString "."
  · simp [ entry?, hq]
  · rw [erase_entry hq]
    by_cases hkept : Path.clean q ≠ path ∧ Text.startsWith (Path.clean q) (path ++ "/") = false
    · rw [if_pos hkept, if_pos hkept]
    · rw [if_neg hkept, if_neg hkept]

/-- Whether all directories on the way to a path are there. -/
def Reaches (fs : Files) (path : Text) : Prop := ∀ a ∈ ancestors path, fs.entry? a = some .directory

theorem Reaches.resolve_eq (h : fs.Reaches path) :
    fs.resolve path = ( fs.entry? (Path.clean path)).elim (.error .notExist) .ok := by
  unfold resolve
  simp only
  split
  · rename_i f hwrong
    obtain ⟨a, ha, hf⟩ := List.exists_of_findSome?_eq_some hwrong
    rw [h a ha] at hf
    exact absurd hf (by simp)
  · cases fs.entry? (Path.clean path) <;> rfl

end Files

/-! ## The two files of a source -/

namespace Watch

variable {c : WatchConfig} {path : Text} {fs fs' : Files} {s : Scene} {p : Product}

/-- What replacing a file comes to. -/
theorem replaceFile_ok {t : Text} (h : replaceFile fs path t = .ok fs') :
    Path.clean path ≠ Text.ofString "." ∧ fs.entry? (Path.clean path) ≠ some .directory
      ∧ fs' = fs.put (Path.clean path) (.text t) := by
  unfold replaceFile at h
  split at h
  · exact absurd h (by simp)
  · rename_i hfree
    have hentry : fs.entry? (Path.clean path) ≠ some .directory := by
      intro hdir
      simp [Files.isDirectory, hdir] at hfree
    refine ⟨?_, hentry, ?_⟩
    · intro hdot
      exact hentry (by simp [ Files.entry?, hdot])
    · unfold Files.write at h
      repeat' split at h
      all_goals simp_all

/-- What removing a file comes to that need not be there. -/
theorem removeStale_ok (hreach : fs.Reaches path) (h : removeStale fs path = .ok fs') :
    fs' = fs.erase (Path.clean path) ∨ fs' = fs ∧ fs.entry? (Path.clean path) = none := by
  unfold removeStale Files.remove at h
  rw [hreach.resolve_eq] at h
  cases hentry : fs.entry? (Path.clean path) with
  | none =>
      simp [hentry, Fault.isNotExist] at h
      exact .inr ⟨h.symm, rfl⟩
  | some e =>
      rw [hentry] at h
      cases e with
      | directory =>
          by_cases hfull : fs.entries.any fun (p, _) => Text.startsWith p (Path.clean path ++ "/")
          · simp [hfull, Fault.isNotExist] at h
          · exact .inl (by simpa [hfull] using h.symm)
      | text _ | database _ => exact .inl (by simpa using h.symm)

/-- Whether a scene shows the two files beside a source. -/
def Mirrors (c : WatchConfig) (path : Text) (fs : Files) (s : Scene) : Prop :=
  ∀ report, fs.text? (productPath c path report) = s.file report

/-- What has to hold of the paths of the two files: the directories on the way to them are there,
and neither lies at or below the other. -/
structure Apart (c : WatchConfig) (path : Text) (fs : Files) : Prop where
  reached (report : Bool) : fs.Reaches (productPath c path report)
  distinct (report : Bool) :
    Path.clean (productPath c path report) ≠ Path.clean (productPath c path !report)
  beside (report : Bool) :
    Text.startsWith (Path.clean (productPath c path report))
      (Path.clean (productPath c path !report) ++ "/") = false

example : Apart Config.default.watch "w/a.tex" ⟨[(Text.ofString "w", .directory)]⟩ where
  reached report a ha := by
    have hw : Files.ancestors (productPath Config.default.watch "w/a.tex" report) =
        [Text.ofString "w"] := by
      cases report <;> decide
    rw [hw] at ha
    rw [List.mem_singleton.mp ha]
    rfl
  distinct report := by cases report <;> decide
  beside report := by cases report <;> decide

/-- A file is replaced as a scene puts a product in place. -/
theorem Mirrors.replaceFile (h : Mirrors c path fs s) (hapart : Apart c path fs)
    (hok : replaceFile fs (productPath c path p.isReport) p.content = .ok fs') :
    Mirrors c path fs' (s.withProduct p) ∧ Apart c path fs' := by
  obtain ⟨hdot, hfree, rfl⟩ := replaceFile_ok hok
  refine ⟨fun report => ?_, fun report a ha => ?_, hapart.distinct, hapart.beside⟩
  · rw [Scene.withProduct_file, Files.text?, Files.put_entry hdot]
    by_cases hkind : p.isReport = report
    · simp [hkind]
    · have hother : report = !p.isReport := by cases report <;> simp_all
      rw [if_neg hkind, if_neg (hother ▸ (hapart.distinct p.isReport).symm)]
      exact h report
  · have hne : a ≠ Path.clean (productPath c path p.isReport) := by
      rintro rfl
      exact hfree (hapart.reached report _ ha)
    rw [Files.put_entry hdot, if_neg hne]
    exact hapart.reached report a ha

/-- A stale file is removed as a scene does it. -/
theorem Mirrors.removeStale (h : Mirrors c path fs s) (hapart : Apart c path fs)
    (hok : removeStale fs (productPath c path !p.isReport) = .ok fs') :
    Mirrors c path fs' (s.withoutOther p) := by
  intro report
  rw [Scene.withoutOther_file]
  by_cases hkind : p.isReport = report
  · subst hkind
    rw [if_pos rfl, ← h]
    rcases removeStale_ok (hapart.reached _) hok with rfl | ⟨rfl, -⟩
    · rw [Files.text?_erase, if_pos ⟨hapart.distinct _, hapart.beside _⟩]
    · rfl
  · have hother : report = !p.isReport := by cases report <;> simp_all
    subst hother
    rw [if_neg hkind]
    rcases removeStale_ok (hapart.reached _) hok with rfl | ⟨rfl, hnone⟩
    · rw [Files.text?_erase, if_neg fun hkept => hkept.1 rfl]
    · rw [Files.text?, hnone]

variable {σ : Type}

/-- **Putting a product in place takes the files through the last two steps of a callback.** -/
theorem place_mirrors {x : Workplace σ} {r : Result} (h : Mirrors c r.source x.files s)
    (hapart : Apart c r.source x.files) (hr : r.handled = false)
    (hdone : (place c p r x).2.handled = true) :
    Mirrors c r.source (place c p r x).1.files ((s.withProduct p).withoutOther p) := by
  unfold place at hdone ⊢
  simp only at hdone ⊢
  split at hdone
  · exact absurd hdone (by simp [hr])
  · rename_i files hreplaced
    obtain ⟨hput, hapart'⟩ := h.replaceFile hapart hreplaced
    split at hdone
    · exact absurd hdone (by simp [hr])
    · rename_i files' hremoved
      exact hput.removeStale hapart' hremoved

/-- Reading and converting change no file. -/
theorem convertSource_some {st : History.Storage σ} {w : Engine.Surroundings}
    {cancel left : Cancellation} {x y : Workplace σ} {r : Result}
    (h : convertSource st w cancel path x = (y, r, some p, left)) :
    y.files = x.files ∧ r.source = path ∧ r.handled = false := by
  unfold convertSource at h
  repeat' split at h
  all_goals simp only [Prod.mk.injEq] at h
  all_goals obtain ⟨rfl, rfl, hp, -⟩ := h
  all_goals simp_all

/-- A callback that nobody interrupts takes a scene through its four steps. -/
theorem Scene.run_alone {convert : Text → Product} {t : Timer} (hjobs : s.jobs = [⟨t, .begun⟩])
    (report : Bool) :
    (s.run convert (List.replicate 4 (.advance t))).file report =
      ((s.withProduct (convert s.source)).withoutOther (convert s.source)).file report := by
  cases hp : (convert s.source).isReport <;> cases report <;>
    simp [Scene.run, List.replicate, Scene.after, Scene.step?, hjobs, Scene.advance, Scene.moveTo,
      Scene.withProduct, Scene.withoutOther, Scene.file, hp]

/-- **Handling a source is a callback that nobody interrupts.** Where the source is converted and
its product put in place, the files are what the scene shows after the four steps of the
callback. -/
theorem processFile_mirrors {st : History.Storage σ} {w : Engine.Surroundings}
    {cancel left : Cancellation} {x y : Workplace σ} {r : Result} {convert : Text → Product}
    {t : Timer}
    (hconverted : convertSource st w cancel path x = (y, r, some (convert s.source), left))
    (hdone : (processFile st w c cancel path x).2.1.handled = true)
    (hapart : Apart c path x.files) (hjobs : s.jobs = [⟨t, .begun⟩])
    (h : Mirrors c path x.files s) :
    Mirrors c path (processFile st w c cancel path x).1.files
      (s.run convert (List.replicate 4 (.advance t))) := by
  obtain ⟨hfiles, rfl, hr⟩ := convertSource_some hconverted
  unfold processFile at hdone ⊢
  rw [hconverted] at hdone ⊢
  rw [← hfiles] at h hapart
  intro report
  rw [Scene.run_alone hjobs]
  exact place_mirrors h hapart hr hdone report

end Watch

end MathMarkup

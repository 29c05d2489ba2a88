import MathMarkup.Certificate.Rotation

/-!
# Served certificates are those of the files

A reload looks at the two files four times, and they may be replaced between any two looks. It takes
the modification times before it reads, and a file never has a time again that it had before. So
what was read vouches for a time (`Trail.Vouches`): as long as the file has that time, it holds what
was read. A replacement makes such a statement empty and never false, which is why every moment of
every schedule keeps it (`Faithful.run`), and an installation records exactly the times that are
vouched for.
-/

namespace MathMarkup.Certificate

open Time (Instant)

/-! ## Files and their times -/

namespace Trail

variable {α : Type} {f g : Trail α} {time : Nat} {content : α}

/-- The file has had this time, and if it still has it, it holds this. -/
def Vouches (f : Trail α) (time : Nat) (content : α) : Prop :=
  time ∈ f.times ∧ ∀ v ∈ f.current, v.modified = time → v.content = content

/-- The second trail comes later: its file has had all the times of the first, and what the first
vouches for it vouches for. -/
structure Leads (f g : Trail α) : Prop where
  times : ∀ time ∈ f.times, time ∈ g.times
  vouches : ∀ time content, f.Vouches time content → g.Vouches time content

theorem Leads.refl (f : Trail α) : f.Leads f := ⟨fun _ h => h, fun _ _ h => h⟩

theorem leads_replace? {v : Version α} (h : f.replace? v = some g) : f.Leads g := by
  unfold replace? at h
  split at h
  · exact absurd h (by simp)
  · rename_i hnew
    cases h
    refine ⟨fun time ht => List.mem_cons_of_mem _ ht, fun time content hf => ?_⟩
    refine ⟨List.mem_cons_of_mem _ hf.1, ?_⟩
    intro w hw htime
    -- the time that is vouched for is an old one, that of the new file is not
    cases Option.mem_def.mp hw
    rw [htime] at hnew
    exact absurd hf.1 hnew

theorem leads_remove (f : Trail α) : f.Leads f.remove := by
  refine ⟨fun _ h => h, fun time content hf => ⟨hf.1, ?_⟩⟩
  intro v hv
  exact absurd hv (by simp [remove])

/-- What a file holds is vouched for by any time it has had. -/
theorem vouches_of_current {v : Version α} (hv : f.current = some v) (ht : time ∈ f.times) :
    f.Vouches time v.content := by
  refine ⟨ht, ?_⟩
  intro w hw _
  rw [hv] at hw
  cases Option.mem_def.mp hw
  rfl

theorem modified_mem {v : Version α} (hv : f.current = some v) : v.modified ∈ f.times :=
  f.recorded v (Option.mem_def.mpr hv)

end Trail

/-! ## What a reload knows -/

/-- What a reload has seen is so: the times are times of the files, and the files vouch for what was
read under these times. -/
def Progress.Vouched (fc : Trail CertificateText) (fk : Trail KeyText) : Progress → Prop
  | idle => True
  | sawCertificate c => c ∈ fc.times
  | sawBoth c k => c ∈ fc.times ∧ k ∈ fk.times
  | hasText c k text => fc.Vouches c text ∧ k ∈ fk.times
  | hasRead c k x => fc.Vouches c (.certificate x) ∧ fk.Vouches k (.key x.keyPair)

theorem Progress.Vouched.leads {fc fc' : Trail CertificateText} {fk fk' : Trail KeyText}
    {q : Progress} (h : q.Vouched fc fk) (hc : fc.Leads fc') (hk : fk.Leads fk') :
    q.Vouched fc' fk' := by
  cases q with
  | idle => trivial
  | sawCertificate c => exact hc.times c h
  | sawBoth c k => exact ⟨hc.times c h.1, hk.times k h.2⟩
  | hasText c k text => exact ⟨hc.vouches c _ h.1, hk.times k h.2⟩
  | hasRead c k x => exact ⟨hc.vouches c _ h.1, hk.vouches k _ h.2⟩

/-- A pair is made of a certificate and of the key that belongs to it, and of nothing else. -/
theorem PairFiles.pair_eq_ok {text : CertificateText} {key : KeyText} {x : Certificate} :
    PairFiles.pair text key = .ok x ↔ text = .certificate x ∧ key = .key x.keyPair := by
  cases text with
  | garbage => simp [PairFiles.pair]
  | certificate y =>
      cases key with
      | garbage => simp [PairFiles.pair]
      | key pair =>
          by_cases hpair : pair = y.keyPair
          · simp only [PairFiles.pair, hpair, if_true, Except.ok.injEq,
              CertificateText.certificate.injEq, KeyText.key.injEq]
            constructor
            · rintro rfl
              exact ⟨rfl, rfl⟩
            · exact fun h => h.1
          · simp only [PairFiles.pair, hpair, if_false, reduceCtorEq, false_iff, not_and,
              CertificateText.certificate.injEq, KeyText.key.injEq]
            rintro rfl hkey
            exact hpair hkey

theorem PairFiles.read_eq_ok {p : PairPaths} {fs : PairFiles} {x : Certificate} :
    fs.read p = .ok x ↔ ∃ v w, fs.certificate = some v ∧ fs.key = some w
      ∧ v.content = .certificate x ∧ w.content = .key x.keyPair := by
  obtain ⟨certificate, key⟩ := fs
  cases certificate with
  | none => simp [PairFiles.read, readCertificate, bind, Except.bind]
  | some v =>
      cases key with
      | none => simp [PairFiles.read, readCertificate, readKey, bind, Except.bind]
      | some w => simp [PairFiles.read, readCertificate, readKey, bind, Except.bind, pair_eq_ok]

namespace Reloader

variable {p : PairPaths} {now : Instant} {fc : Trail CertificateText} {fk : Trail KeyText}
  {r r' : Reloader}

/-- What a moment of a reload makes of a reloader: it goes on in its reload, knowing what is so, or
it puts in place what it has read. -/
inductive Advances (fc : Trail CertificateText) (fk : Trail KeyText) (r : Reloader) :
    Moment → Reloader → Prop
  | goesOn {m : Moment} {q : Progress} (hq : r.progress.Vouched fc fk → q.Vouched fc fk) :
      Advances fc fk r m { r with progress := q }
  | installs {c k : Nat} {x : Certificate} (hread : r.progress = .hasRead c k x) :
      Advances fc fk r .install
        { served := some x, certificateTime := some c, keyTime := some k }

theorem advances_of_step {m : Moment}
    (h : r.step p now ⟨fc.current, fk.current⟩ m = .ok r') : Advances fc fk r m r' := by
  have hsame : ∀ m, Advances fc fk r m r := fun _ => .goesOn (q := r.progress) id
  cases m with
  | statCertificate =>
      simp only [step] at h
      split at h
      · rename_i v hv
        cases h
        exact .goesOn fun _ => Trail.modified_mem hv
      · exact absurd h (by simp)
  | statKey =>
      simp only [step] at h
      split at h
      · rename_i c v hc hv
        cases h
        refine .goesOn fun hr => ⟨?_, Trail.modified_mem hv⟩
        rw [hc] at hr
        exact hr
      · exact absurd h (by simp)
      · cases h
        exact hsame _
  | readCertificate =>
      simp only [step] at h
      split at h
      · rename_i c k hck
        cases hv : fc.current with
        | none => simp [PairFiles.readCertificate, hv, bind, Except.bind] at h
        | some v =>
            simp only [PairFiles.readCertificate, hv, bind, Except.bind, pure, Except.pure] at h
            cases h
            refine .goesOn fun hr => ?_
            rw [hck] at hr
            exact ⟨Trail.vouches_of_current hv hr.1, hr.2⟩
      · cases h
        exact hsame _
  | readKey =>
      simp only [step] at h
      split at h
      · rename_i c k text htext
        cases hv : fk.current with
        | none => simp [PairFiles.readKey, hv, bind, Except.bind] at h
        | some v =>
            simp only [PairFiles.readKey, hv, bind, Except.bind, pure, Except.pure] at h
            split at h
            · exact absurd h (by simp)
            · rename_i x hpair
              obtain ⟨htext', hkey⟩ := PairFiles.pair_eq_ok.mp hpair
              split at h
              · exact absurd h (by simp)
              · cases h
                refine .goesOn fun hr => ?_
                rw [htext] at hr
                refine ⟨htext' ▸ hr.1, ?_⟩
                rw [← hkey]
                exact Trail.vouches_of_current hv hr.2
      · cases h
        exact hsame _
  | install =>
      simp only [step] at h
      split at h
      · rename_i c k x hread
        cases h
        exact .installs hread
      · cases h
        exact hsame _

end Reloader

namespace Rotation

variable {p : PairPaths} {x y : Rotation}

/-! ## What a moment can do -/

/-- What becomes of a rotation at a moment. -/
inductive Moves (x : Rotation) : Event → Rotation → Prop
  | files {e : Event} {fc : Trail CertificateText} {fk : Trail KeyText}
      (hc : x.certificate.Leads fc) (hk : x.key.Leads fk) :
      Moves x e { x with certificate := fc, key := fk }
  | beginReload : Moves x .beginReload { x with reloads := x.reloads ++ [.idle] }
  | goesOn {place : Nat} {m : Reloader.Moment} {now : Instant} {q q' : Progress}
      (hplace : x.reloads[place]? = some q)
      (hq : q.Vouched x.certificate x.key → q'.Vouched x.certificate x.key) :
      Moves x (.reload place m now) { x with reloads := x.reloads.set place q' }
  | installs {place : Nat} {now : Instant} {c k : Nat} {certificate : Certificate}
      (hplace : x.reloads[place]? = some (.hasRead c k certificate)) :
      Moves x (.reload place .install now)
        { x with
          reloader := ⟨some certificate, some c, some k, x.reloader.progress⟩
          reloads := x.reloads.set place .idle }
  | checks {e : Event} {cs : List Check} : Moves x e { x with checks := cs }

/-- A reload that fails is given up, and that is all. -/
theorem after_error {place : Nat} {m : Reloader.Moment} {now : Instant} {q : Progress}
    {fault : Fault} (hplace : x.reloads[place]? = some q)
    (h : (x.seenBy q).step p now x.files m = .error fault) :
    x.after p (.reload place m now) = { x with reloads := x.reloads.set place .idle } := by
  simp only [after, step?, hplace, Option.map_some, h]
  rfl

theorem moves_of_step? {e : Event} (hs : x.step? p e = some y) : Moves x e y := by
  cases e with
  | replaceCertificate v =>
      obtain ⟨f, hf, rfl⟩ := Option.map_eq_some_iff.mp hs
      exact .files (Trail.leads_replace? hf) (.refl _)
  | replaceKey v =>
      obtain ⟨f, hf, rfl⟩ := Option.map_eq_some_iff.mp hs
      exact .files (.refl _) (Trail.leads_replace? hf)
  | removeCertificate =>
      cases hs
      exact .files x.certificate.leads_remove (.refl _)
  | removeKey =>
      cases hs
      exact .files (.refl _) x.key.leads_remove
  | beginReload =>
      cases hs
      exact .beginReload
  | reload place m now =>
      obtain ⟨q, hplace, hy⟩ := Option.map_eq_some_iff.mp hs
      cases hstep : (x.seenBy q).step p now x.files m with
      | error fault =>
          rw [hstep] at hy
          subst hy
          exact .goesOn hplace fun _ => trivial
      | ok r =>
          rw [hstep] at hy
          subst hy
          cases Reloader.advances_of_step hstep with
          | goesOn hq => exact .goesOn hplace hq
          | installs hread =>
              cases hread
              exact .installs hplace
  | beginCheck =>
      cases hs
      exact .checks
  | check place =>
      obtain ⟨c, -, rfl⟩ := Option.map_eq_some_iff.mp hs
      exact .checks

/-- What every move at an event of the schedule keeps, the schedule keeps. -/
theorem run_keeps {P : Rotation → Prop} (hP : P x) {es : List Event}
    (hkeeps : ∀ e ∈ es, ∀ y z, P y → Moves y e z → P z) : P (x.run p es) := by
  induction es generalizing x with
  | nil => exact hP
  | cons e es ih =>
      have hafter : P (x.after p e) := by
        unfold after
        cases hs : x.step? p e with
        | none => exact hP
        | some y => exact hkeeps e List.mem_cons_self x y hP (moves_of_step? hs)
      exact ih hafter fun e' he' => hkeeps e' (List.mem_cons_of_mem e he')

/-! ## What every schedule keeps -/

/-- The files vouch for what is served under the recorded times. -/
def Serves (x : Rotation) : Prop :=
  ∃ c k certificate, x.reloader.served = some certificate ∧ x.reloader.certificateTime = some c
    ∧ x.reloader.keyTime = some k
    ∧ (Progress.hasRead c k certificate).Vouched x.certificate x.key

/-- Every reload under way knows what is so, and if anything was loaded, so does the reloader. -/
structure Faithful (x : Rotation) : Prop where
  reloads : ∀ q ∈ x.reloads, q.Vouched x.certificate x.key
  loaded : x.reloader = {} ∨ x.Serves

theorem faithful_start (fs : PairFiles) : (start fs).Faithful :=
  ⟨fun _ hq => absurd hq (by simp [start]), Or.inl rfl⟩

theorem vouched_set {fc : Trail CertificateText} {fk : Trail KeyText} {qs : List Progress}
    {place : Nat} {q : Progress} (hqs : ∀ q ∈ qs, q.Vouched fc fk) (hq : q.Vouched fc fk) :
    ∀ q' ∈ qs.set place q, q'.Vouched fc fk := by
  intro q' hq'
  rcases List.mem_or_eq_of_mem_set hq' with hmem | rfl
  · exact hqs q' hmem
  · exact hq

theorem Faithful.step {e : Event} (h : x.Faithful) (hmove : Moves x e y) : y.Faithful := by
  cases hmove with
  | files hc hk =>
      refine ⟨fun q hq => (h.reloads q hq).leads hc hk, ?_⟩
      rcases h.loaded with hnone | ⟨c, k, certificate, hserved, hctime, hktime, hread⟩
      · exact Or.inl hnone
      · exact Or.inr ⟨c, k, certificate, hserved, hctime, hktime, hread.leads hc hk⟩
  | beginReload =>
      refine ⟨fun q hq => ?_, h.loaded⟩
      rcases List.mem_append.mp hq with hmem | hnew
      · exact h.reloads q hmem
      · cases List.mem_singleton.mp hnew
        trivial
  | goesOn hplace hq =>
      have hold := h.reloads _ (List.mem_of_getElem? hplace)
      exact ⟨vouched_set h.reloads (hq hold), h.loaded⟩
  | installs hplace =>
      have hold := h.reloads _ (List.mem_of_getElem? hplace)
      exact ⟨vouched_set h.reloads trivial, Or.inr ⟨_, _, _, rfl, rfl, rfl, hold⟩⟩
  | checks => exact ⟨h.reloads, h.loaded⟩

theorem Faithful.run (h : x.Faithful) (es : List Event) : (x.run p es).Faithful :=
  run_keeps h fun _ _ _ _ hy hmove => hy.step hmove

/-- What is served is never given up. -/
theorem served_run {es : List Event} (h : x.reloader.served.isSome) :
    (x.run p es).reloader.served.isSome := by
  refine run_keeps (P := fun x => x.reloader.served.isSome) h fun e _ y z hy hmove => ?_
  cases hmove with
  | installs hplace => rfl
  | files | beginReload | goesOn | checks => exact hy

/-- Only an installation changes what is served and the times recorded with it. -/
theorem reloader_run {es : List Event} (h : ∀ place now, .reload place .install now ∉ es) :
    (x.run p es).reloader = x.reloader := by
  refine run_keeps (P := fun y => y.reloader = x.reloader) rfl fun e he y z hy hmove => ?_
  cases hmove with
  | installs hplace => exact absurd he (h _ _)
  | files | beginReload | goesOn | checks => exact hy

/-! ## When the recorded times are those of the files -/

/-- What is recorded is up to date: both files are there with the recorded times. -/
def UpToDate (x : Rotation) : Prop :=
  ∃ v w, x.files.certificate = some v ∧ x.files.key = some w
    ∧ x.reloader.certificateTime = some v.modified ∧ x.reloader.keyTime = some w.modified

theorem upToDate_of_not_needsReload {v : Version CertificateText} {w : Version KeyText}
    (hv : x.files.certificate = some v) (hw : x.files.key = some w)
    (h : x.reloader.needsReload x.files = false) : x.UpToDate := by
  simp only [Reloader.needsReload, hv, hw, Reloader.isOutdated, Bool.or_eq_false_iff,
    bne_eq_false_iff_eq] at h
  exact ⟨v, w, hv, hw, h.1.symm, h.2.symm⟩

/-- **What is up to date serves the files.** -/
theorem Faithful.read (h : x.Faithful) (hup : x.UpToDate) :
    ∃ certificate, x.reloader.served = some certificate ∧ x.files.read p = .ok certificate := by
  obtain ⟨v, w, hv, hw, hctime, hktime⟩ := hup
  rcases h.loaded with hnone | ⟨c, k, certificate, hserved, hc, hk, hread⟩
  · rw [hnone] at hctime
    exact absurd hctime (by simp)
  · rw [hctime] at hc
    rw [hktime] at hk
    refine ⟨certificate, hserved, PairFiles.read_eq_ok.mpr ⟨v, w, hv, hw, ?_, ?_⟩⟩
    · exact hread.1.2 v hv (Option.some.inj hc)
    · exact hread.2.2 w hw (Option.some.inj hk)

/-- A reload during which the files rest serves what they hold. -/
theorem reload_served {now : Instant} {r : Reloader} {fs : PairFiles} {certificate : Certificate}
    (hread : fs.read p = .ok certificate) (hvalid : certificate.validateAt now = .ok ()) :
    ∃ r', Reloader.reload p now fs r = .ok r' ∧ r'.served = some certificate := by
  obtain ⟨v, w, hv, hw, hcontent, hkey⟩ := PairFiles.read_eq_ok.mp hread
  have hpair : PairFiles.pair v.content w.content = .ok certificate :=
    PairFiles.pair_eq_ok.mpr ⟨hcontent, hkey⟩
  refine ⟨⟨some certificate, some v.modified, some w.modified, .idle⟩, ?_, rfl⟩
  simp [Reloader.reload, Reloader.step, List.foldlM, bind, Except.bind, pure, Except.pure, hv, hw,
    PairFiles.readCertificate, PairFiles.readKey, hpair, hvalid]

/-- **A poll while the files rest serves what they hold**, whatever happened before. -/
theorem Faithful.poll (h : x.Faithful) {now : Instant} {certificate : Certificate}
    (hread : x.files.read p = .ok certificate) (hvalid : certificate.validateAt now = .ok ()) :
    (x.reloader.poll p now x.files).served = some certificate := by
  unfold Reloader.poll
  split
  · obtain ⟨r', hr', hserved⟩ := reload_served (r := x.reloader) hread hvalid
    rw [hr']
    exact hserved
  · rename_i hneeds
    obtain ⟨v, w, hv, hw, -, -⟩ := PairFiles.read_eq_ok.mp hread
    have hup := upToDate_of_not_needsReload hv hw (Bool.eq_false_iff.mpr hneeds)
    obtain ⟨certificate', hserved, hread'⟩ := h.read (p := p) hup
    rw [hread] at hread'
    cases hread'
    exact hserved

/-! ## One party alone -/

/-- A check with nobody coming between asks whether a reload is needed. -/
theorem check_run (x : Rotation) :
    (x.run p [.beginCheck, .check x.checks.length, .check x.checks.length,
      .check x.checks.length]).checks
      = x.checks ++ [.answered (x.reloader.needsReload x.files)] := by
  cases hc : x.certificate.current <;> cases hk : x.key.current
  all_goals simp [run, after, step?, Check.next, Reloader.needsReload, files, hc, hk]

/-- The moments of one reload. -/
def wholeReload (place : Nat) (now : Instant) : List Event :=
  [.beginReload, .reload place .statCertificate now, .reload place .statKey now,
    .reload place .readCertificate now, .reload place .readKey now, .reload place .install now]

/-- A reload with nobody coming between is taken as a whole, or leaves everything as it was. -/
theorem reload_run (x : Rotation) (now : Instant) :
    (x.run p (wholeReload x.reloads.length now)).reloader
      = match x.reloader.reload p now x.files with
        | .ok r => { r with progress := x.reloader.progress }
        | .error _ => x.reloader := by
  -- how far it comes is decided by the files, by what they hold and by the time
  cases hc : x.certificate.current <;> cases hk : x.key.current
  case' some.some v w => cases hpair : PairFiles.pair v.content w.content
  case' some.some.ok certificate => cases hvalid : certificate.validateAt now
  all_goals
    simp [run, after, step?, wholeReload, Reloader.reload, Reloader.step, seenBy, settled, files,
      PairFiles.readCertificate, PairFiles.readKey, Reloader.abandoned, bind, Except.bind, pure,
      Except.pure, *]

/-! ## The guarantee -/

/--
**No change of the files is missed, and no served pair is lost.** At every moment of every schedule
of replacements, reloads and checks:

* a reload that fails is given up and changes nothing else, and nothing but an installation changes
  the served certificate and the recorded times;
* when both recorded times are those of the files, the served certificate is what the files hold;
* a check that finds no difference, while the files still have the times that it saw, is right about
  that, and a check or a reload with nobody coming between is what it is for files that rest;
* once something is served, something is served for ever, and a poll while the files rest serves
  what they hold, if that can be served at all.
-/
theorem served_pair_is_current (p : PairPaths) (fs : PairFiles) (es : List Event) :
    let x := (start fs).run p es
    (∀ place m now q fault, x.reloads[place]? = some q →
        (x.seenBy q).step p now x.files m = .error fault →
        x.after p (.reload place m now) = { x with reloads := x.reloads.set place .idle })
      ∧ (∀ es', (∀ place now, .reload place .install now ∉ es') →
        (x.run p es').reloader = x.reloader)
      ∧ (x.UpToDate →
        ∃ certificate, x.reloader.served = some certificate ∧ x.files.read p = .ok certificate)
      ∧ (∀ c k, x.reloader.isOutdated c k = false →
        x.files.certificate.map (·.modified) = some c → x.files.key.map (·.modified) = some k →
        ∃ certificate, x.reloader.served = some certificate ∧ x.files.read p = .ok certificate)
      ∧ (x.run p [.beginCheck, .check x.checks.length, .check x.checks.length,
          .check x.checks.length]).checks
        = x.checks ++ [.answered (x.reloader.needsReload x.files)]
      ∧ (∀ now, (x.run p (wholeReload x.reloads.length now)).reloader
        = match x.reloader.reload p now x.files with
          | .ok r => { r with progress := x.reloader.progress }
          | .error _ => x.reloader)
      ∧ (x.reloader.served.isSome → ∀ es', (x.run p es').reloader.served.isSome)
      ∧ ∀ now certificate, x.files.read p = .ok certificate → certificate.validateAt now = .ok () →
        (x.reloader.poll p now x.files).served = some certificate := by
  intro x
  have h : x.Faithful := (faithful_start fs).run es
  refine ⟨fun place m now q fault => after_error, fun es' => reloader_run, h.read, ?_, check_run x,
    reload_run x, fun hserved es' => served_run hserved, fun now certificate => h.poll⟩
  intro c k hfresh hc hk
  obtain ⟨v, hv, rfl⟩ := Option.map_eq_some_iff.mp hc
  obtain ⟨w, hw, rfl⟩ := Option.map_eq_some_iff.mp hk
  refine h.read (upToDate_of_not_needsReload hv hw ?_)
  simp only [Reloader.needsReload, hv, hw, hfresh]

/-- A certificate for a key pair, valid for a while. -/
def brief (keyPair : Nat) : Certificate := ⟨[], ⟨⟨0⟩, 0⟩, ⟨⟨9⟩, 0⟩, keyPair⟩

/-- Both files are replaced after a reload has seen their times, one of them between the two
reads. -/
def overtaken : List Event :=
  [.beginReload, .reload 0 .statCertificate ⟨1⟩, .reload 0 .statKey ⟨1⟩,
    .replaceCertificate ⟨2, .certificate (brief 8)⟩, .reload 0 .readCertificate ⟨1⟩,
    .replaceKey ⟨2, .key 8⟩, .reload 0 .readKey ⟨1⟩, .reload 0 .install ⟨1⟩]

/-- A pair that has been there for some time. -/
def oldPair : PairFiles := ⟨some ⟨1, .certificate (brief 7)⟩, some ⟨1, .key 7⟩⟩

/-- The new pair is served under the times of the old one, so that a reload is still needed. After
it the times are those of the files. -/
theorem overtaken_served_current :
    ((start oldPair).run {} overtaken).reloader = ⟨some (brief 8), some 1, some 1, .idle⟩
      ∧ ((start oldPair).run {} overtaken).reloader.needsReload
          ((start oldPair).run {} overtaken).files = true
      ∧ ((start oldPair).run {} (overtaken ++ wholeReload 1 ⟨3⟩)).UpToDate
      ∧ ((start oldPair).run {} (overtaken ++ wholeReload 1 ⟨3⟩)).files.read {}
        = .ok (brief 8) := by
  have hup : ((start oldPair).run {} (overtaken ++ wholeReload 1 ⟨3⟩)).UpToDate :=
    ⟨⟨2, .certificate (brief 8)⟩, ⟨2, .key 8⟩, by decide +kernel, by decide +kernel,
      by decide +kernel, by decide +kernel⟩
  have hserved : ((start oldPair).run {} (overtaken ++ wholeReload 1 ⟨3⟩)).reloader.served
      = some (brief 8) := by decide +kernel
  obtain ⟨-, -, hcurrent, -⟩ :=
    served_pair_is_current {} oldPair (overtaken ++ wholeReload 1 ⟨3⟩)
  obtain ⟨certificate, hcertificate, hread⟩ := hcurrent hup
  rw [hserved] at hcertificate
  rw [← Option.some.inj hcertificate] at hread
  exact ⟨by decide +kernel, by decide +kernel, hup, hread⟩

end Rotation

end MathMarkup.Certificate

import Mathlib.Data.List.TakeWhile
import MathMarkup.Config.Document
import MathMarkup.Proofs.Checks
import MathMarkup.Watch.Watcher

/-!
# What is written beside a source

A watcher must not take what it wrote for a source: it would convert its own outputs, or write over
the source itself. Validation compares the suffixes of what is written with the extensions of
sources as they are spelled, whereas the watcher looks at the end of a name from its last dot on and
ignores the case of letters. `Reenters` is the condition that matters, and the sources are safe
exactly when neither suffix meets it.
-/

namespace MathMarkup

/-! ## Searching from the end -/

namespace Text

variable {x : UInt8} {t u : Text}

theorem findIdx?_reverse_none (h : x ∉ t) : t.reverse.findIdx? (· == x) = none := by
  rw [List.findIdx?_eq_none_iff]
  intro y hy
  rw [beq_eq_false_iff_ne]
  rintro rfl
  exact h (List.mem_reverse.mp hy)

theorem findLastByte?_none (h : x ∉ t) : findLastByte? x t = none := by
  rw [findLastByte?, findIdx?_reverse_none h, Option.map_none]

theorem findLastByte?_append (h : x ∉ u) : findLastByte? x (t ++ x :: u) = some t.length := by
  have hfound : (t ++ x :: u).reverse.findIdx? (· == x) = some u.length := by
    rw [List.reverse_append, List.reverse_cons, List.append_assoc, List.findIdx?_append,
      findIdx?_reverse_none h]
    simp [List.findIdx?_cons]
  rw [findLastByte?, hfound, Option.map_some, List.length_append, List.length_cons]
  congr 1
  omega

/-- A byte of a text has a last place in it. -/
theorem exists_last (h : x ∈ t) : ∃ b w, t = b ++ x :: w ∧ x ∉ w := by
  obtain ⟨w, b, hsplit, hw⟩ := List.eq_append_cons_of_mem (List.mem_reverse.mpr h)
  refine ⟨b.reverse, w.reverse, ?_, fun hmem => hw (List.mem_reverse.mp hmem)⟩
  rw [← List.reverse_reverse t, hsplit]
  simp

end Text

/-! ## Extensions -/

namespace Path

/-- The byte before an extension. -/
abbrev dot : UInt8 := Text.byte '.'

/-- A text without dots and slashes. -/
def Plain (t : Text) : Prop := dot ∉ t ∧ slash ∉ t

variable {b e s t w : Text}

theorem Plain.append (ht : Plain t) (hw : Plain w) : Plain (t ++ w) := by
  refine ⟨fun h => ?_, fun h => ?_⟩
  · exact (List.mem_append.mp h).elim ht.1 hw.1
  · exact (List.mem_append.mp h).elim ht.2 hw.2

/-- A path has neither dot nor slash, or ends with a plain text behind one of them. -/
theorem plain_or_split (p : Text) :
    Plain p ∨ ∃ b w, Plain w ∧ (p = b ++ dot :: w ∨ p = b ++ slash :: w) := by
  induction p with
  | nil => exact .inl ⟨by simp, by simp⟩
  | cons x p ih =>
      rcases ih with hp | ⟨b, w, hw, hsplit⟩
      · by_cases hdot : x = dot
        · exact .inr ⟨[], p, hp, .inl (by simp [hdot])⟩
        · by_cases hslash : x = slash
          · exact .inr ⟨[], p, hp, .inr (by simp [hslash])⟩
          · refine .inl ⟨?_, ?_⟩
            · simpa [Ne.symm hdot] using hp.1
            · simpa [Ne.symm hslash] using hp.2
      · refine .inr ⟨x :: b, w, hw, hsplit.imp ?_ ?_⟩
        · rintro rfl; rfl
        · rintro rfl; rfl

theorem extension_plain (h : Plain t) : extension t = [] := by
  simp [extension, Text.findLastByte?_none h.1, Text.findLastByte?_none h.2]

theorem extension_slash (b : Text) (h : Plain w) : extension (b ++ slash :: w) = [] := by
  have hdrop : (b ++ slash :: w).drop (b.length + 1) = w := by simp [List.drop_append]
  simp [extension, Text.findLastByte?_append h.2, hdrop, Text.findLastByte?_none h.1]

theorem extension_dot (b : Text) (h : Plain w) : extension (b ++ dot :: w) = dot :: w := by
  have hslash : slash ∉ dot :: w := by
    simpa [show slash ≠ dot by decide] using h.2
  by_cases hb : slash ∈ b
  · -- the last name begins behind the last slash of `b`
    obtain ⟨a, v, rfl, hv⟩ := Text.exists_last hb
    have hlast : slash ∉ v ++ dot :: w := fun hmem => (List.mem_append.mp hmem).elim hv hslash
    have hpath : a ++ slash :: v ++ dot :: w = a ++ slash :: (v ++ dot :: w) := by simp
    have hdrop : (a ++ slash :: (v ++ dot :: w)).drop (a.length + 1) = v ++ dot :: w := by
      simp [List.drop_append]
    simp [extension, hpath, Text.findLastByte?_append hlast, hdrop, Text.findLastByte?_append h.1]
  · have hnone : slash ∉ b ++ dot :: w := fun hmem => (List.mem_append.mp hmem).elim hb hslash
    simp [extension, Text.findLastByte?_none hnone, Text.findLastByte?_append h.1]

/-- The extension of a path is a dot and a plain text, if there is one. -/
theorem extension_eq_nil_or (p : Text) :
    extension p = [] ∨ ∃ b w, Plain w ∧ p = b ++ dot :: w ∧ extension p = dot :: w := by
  rcases plain_or_split p with hp | ⟨b, w, hw, rfl | rfl⟩
  · exact .inl (extension_plain hp)
  · exact .inr ⟨b, w, hw, rfl, extension_dot b hw⟩
  · exact .inl (extension_slash b hw)

/-- Behind a dot or a slash nothing matters that stands before it. -/
theorem extension_append_of_not_plain (b : Text) (hs : ¬Plain s) :
    extension (b ++ s) = extension s := by
  rcases plain_or_split s with hplain | ⟨a, w, hw, rfl | rfl⟩
  · exact absurd hplain hs
  · rw [← List.append_assoc, extension_dot _ hw, extension_dot _ hw]
  · rw [← List.append_assoc, extension_slash _ hw, extension_slash _ hw]

/-- **What is put behind a path meets no more of it than its extension.** -/
theorem extension_append (b s : Text) : extension (b ++ s) = extension (extension b ++ s) := by
  by_cases hs : Plain s
  · rcases plain_or_split b with hb | ⟨a, w, hw, rfl | rfl⟩
    · rw [extension_plain hb, extension_plain (hb.append hs), List.nil_append, extension_plain hs]
    · have hdot := extension_dot [] (hw.append hs)
      rw [extension_dot a hw, List.append_assoc, List.cons_append, extension_dot a (hw.append hs)]
      exact hdot.symm
    · rw [extension_slash a hw, List.append_assoc, List.cons_append,
        extension_slash a (hw.append hs), List.nil_append, extension_plain hs]
  · rw [extension_append_of_not_plain _ hs, extension_append_of_not_plain _ hs]

theorem extension_extension (p : Text) : extension (extension p) = extension p := by
  have happend := extension_append p []
  rw [List.append_nil, List.append_nil] at happend
  exact happend.symm

theorem not_plain_of_extension (he : extension e = e) (hne : e ≠ []) : ¬Plain e :=
  fun hplain => hne (he ▸ extension_plain hplain)

/-- An extension put behind a path is the extension of the whole. -/
theorem extension_append_self (b : Text) (he : extension e = e) (hne : e ≠ []) :
    extension (b ++ e) = e :=
  (extension_append_of_not_plain b (not_plain_of_extension he hne)).trans he

theorem stem_append_self (b : Text) (he : extension e = e) (hne : e ≠ []) : stem (b ++ e) = b := by
  simp [stem, extension_append_self b he hne]

theorem slash_notMem_extension (p : Text) : slash ∉ extension p := by
  rcases extension_eq_nil_or p with hnil | ⟨b, w, hw, -, hdot⟩
  · simp [hnil]
  · simpa [hdot, show slash ≠ dot by decide] using hw.2

/-- A path of one name is hidden only if the name starts with a dot. -/
theorem not_hidden {x : UInt8} {p : Text} (hx : x ≠ dot) (hslash : slash ∉ x :: p) :
    isHidden (x :: p) = false := by
  have htrim : trimEnd (x :: p) = x :: p := by
    have hends : ∀ y ∈ (x :: p).reverse, ¬(y == slash) = true := by
      intro y hy heq
      exact hslash (beq_iff_eq.mp heq ▸ List.mem_reverse.mp hy)
    have hkept : (x :: p).reverse.dropWhile (· == slash) = (x :: p).reverse := by
      rw [List.dropWhile_eq_self_iff]
      exact fun hl => hends _ (List.getElem_mem hl)
    rw [trimEnd, hkept, List.reverse_reverse]
  simpa [isHidden, base, htrim, Text.findLastByte?_none hslash] using hx

end Path

/-! ## Letter case -/

theorem Text.toLower_ne_nil {t : Text} (h : t ≠ []) : Text.toLower t ≠ [] := by
  obtain ⟨b, r, rfl⟩ := List.exists_cons_of_ne_nil h
  unfold Text.toLower
  split
  · simp
  · have hchar : ∀ c : Char, Text.ofChar c ≠ [] := by
      intro c hnil
      have hsize := String.length_utf8EncodeChar c
      rw [show String.utf8EncodeChar c = [] from hnil] at hsize
      exact absurd hsize.symm (Nat.ne_of_gt c.utf8Size_pos)
    simp [Text.ofChars, Text.chars, Text.runes, Text.runesFrom, hchar]

/-! ## What validation says -/

namespace Config

/-- The extensions of a watcher without faults start with a dot and differ from its suffixes. -/
theorem checkWatch_extension {c : WatchConfig} (h : checkWatch c = []) {x : Text}
    (hx : x ∈ c.extensions) : x ≠ [] ∧ x ≠ c.suffix ∧ x ≠ c.errorSuffix := by
  obtain ⟨hstarts, hdiffers⟩ := (checkWatch_eq_nil_iff.mp h).1 x hx
  refine ⟨?_, hdiffers⟩
  rintro rfl
  exact absurd hstarts (by decide)

/-- A configuration that passes validation has a watcher without faults. -/
theorem checkWatch_of_validate {schedule : ScheduleReader} {c : Config}
    (h : c.validate schedule = .ok ()) : checkWatch c.watch = [] := by
  have hfaults : c.faults schedule = [] := validate_eq_ok_iff.mp h
  exact (List.append_eq_nil_iff.mp (List.append_eq_nil_iff.mp hfaults).1).2

end Config

/-! ## Products that are sources -/

namespace Watch

variable {c : WatchConfig} {p q s : Text}

/-- Whether a suffix, behind a name that may have an extension of its own, makes the name of a
source. -/
def Reenters (c : WatchConfig) (s : Text) : Prop :=
  ∃ e, Path.extension e = e ∧ hasExtension c (e ++ s) = true

theorem hasExtension_iff :
    hasExtension c p = true
      ↔ ∃ x ∈ c.extensions, Text.toLower (Path.extension p) = Text.toLower x := by
  simp [hasExtension]

/-- Only the extension of a path matters. -/
theorem hasExtension_congr (h : Path.extension p = Path.extension q) :
    hasExtension c p = hasExtension c q := by
  rw [hasExtension, h, hasExtension]

theorem extension_ne_nil (hchecked : Config.checkWatch c = []) (h : hasExtension c p = true) :
    Path.extension p ≠ [] := by
  intro hnil
  obtain ⟨x, hx, heq⟩ := hasExtension_iff.mp h
  rw [hnil] at heq
  exact Text.toLower_ne_nil (Config.checkWatch_extension hchecked hx).1 heq.symm

/-- A product that is a source tells that its suffix makes sources. -/
theorem reenters_of_hasExtension (h : hasExtension c (Path.stem p ++ s) = true) : Reenters c s := by
  refine ⟨Path.extension (Path.stem p), Path.extension_extension _, ?_⟩
  rwa [hasExtension_congr (Path.extension_append _ s)] at h

/-- A suffix that makes sources makes one out of some source. -/
theorem exists_source_of_reenters (hchecked : Config.checkWatch c = []) (h : Reenters c s) :
    ∃ p, isSource c p = true ∧ hasExtension c (Path.stem p ++ s) = true := by
  obtain ⟨e, he, hends⟩ := h
  -- the extension that the suffix makes, behind a name that ends as it is needed there
  let f := Path.extension (e ++ s)
  have hf : Path.extension f = f := Path.extension_extension _
  have hne : f ≠ [] := extension_ne_nil hchecked hends
  let a : Text := Text.byte 'a' :: e
  have ha : Path.extension a = e := by
    by_cases hnil : e = []
    · have hplain : Path.Plain [Text.byte 'a'] := ⟨by decide, by decide⟩
      simp only [a, hnil]
      exact Path.extension_plain hplain
    · exact Path.extension_append_self [Text.byte 'a'] he hnil
  have hslash : Path.slash ∉ a ++ f := by
    have hfirst : Path.slash ∉ a := by
      simpa [a, show Path.slash ≠ Text.byte 'a' by decide, he] using Path.slash_notMem_extension e
    exact fun hmem => (List.mem_append.mp hmem).elim hfirst (Path.slash_notMem_extension _)
  refine ⟨a ++ f, ?_, ?_⟩
  · have hvisible : Path.isHidden (a ++ f) = false := Path.not_hidden (by decide) hslash
    have hsame : hasExtension c (a ++ f) = true := by
      rw [hasExtension_congr (Path.extension_append_self a hf hne)]
      exact hends
    rw [isSource, hvisible, hsame]
    rfl
  · rw [Path.stem_append_self a hf hne, hasExtension_congr (Path.extension_append a s), ha]
    exact hends

/-- A product lies in the place of its source only under a suffix that makes sources. -/
theorem product_ne_source (hsource : hasExtension c p = true) (h : ¬Reenters c s) :
    Path.stem p ++ s ≠ p := by
  intro heq
  exact h (reenters_of_hasExtension (heq.symm ▸ hsource))

/-- **Sources are safe from a suffix that makes none, and only from such.** -/
theorem apart_iff (hchecked : Config.checkWatch c = []) (s : Text) :
    (∀ p, isSource c p = true →
        Path.stem p ++ s ≠ p ∧ hasExtension c (Path.stem p ++ s) = false)
      ↔ ¬Reenters c s := by
  constructor
  · intro hsafe hreenters
    obtain ⟨p, hp, hends⟩ := exists_source_of_reenters hchecked hreenters
    rw [(hsafe p hp).2] at hends
    exact absurd hends (by simp)
  · intro h p hp
    have hsource : hasExtension c p = true := by simp_all [isSource]
    exact ⟨product_ne_source hsource h, Bool.eq_false_iff.mpr fun hends =>
      h (reenters_of_hasExtension hends)⟩

/-- Of a suffix with a dot or a slash it can be read off whether it makes sources. -/
theorem reenters_iff_of_not_plain (hs : ¬Path.Plain s) :
    Reenters c s ↔ hasExtension c s = true := by
  constructor
  · rintro ⟨e, -, hends⟩
    rwa [hasExtension_congr (Path.extension_append_of_not_plain e hs)] at hends
  · intro hends
    exact ⟨[], Path.extension_plain ⟨by simp, by simp⟩, hends⟩

/-- Where suffixes and extensions are spelled alike, it is enough that they differ. -/
theorem not_reenters_of_lower (hs : Path.extension s = s) (hne : s ≠ [])
    (hlower : Text.toLower s = s) (hextensions : ∀ x ∈ c.extensions, Text.toLower x = x ∧ x ≠ s) :
    ¬Reenters c s := by
  rw [reenters_iff_of_not_plain (Path.not_plain_of_extension hs hne), hasExtension_iff]
  rintro ⟨x, hx, heq⟩
  rw [hs, hlower, (hextensions x hx).1] at heq
  exact (hextensions x hx).2 heq.symm

/-- **The products of sources are no sources exactly if neither suffix makes sources.** A
configuration that passes validation has settings of the watcher without fault, and under such
settings:

* the paths written for a source differ from it and are not those of sources, for every source, if
  and only if neither suffix makes sources;
* validation sees to this where suffixes and extensions are lower-case extensions, but a suffix that
  contains a dot or a slash makes sources whenever its own extension is one of markup in another
  case of letters, or behind another dot. -/
theorem products_apart_iff (c : Config) :
    (∀ schedule, c.validate schedule = .ok () → Config.checkWatch c.watch = [])
      ∧ (Config.checkWatch c.watch = [] →
          ((∀ p, isSource c.watch p = true → ∀ report,
              productPath c.watch p report ≠ p
                ∧ hasExtension c.watch (productPath c.watch p report) = false)
            ↔ ¬Reenters c.watch c.watch.suffix ∧ ¬Reenters c.watch c.watch.errorSuffix)
          ∧ ((∀ x ∈ c.watch.extensions, Text.toLower x = x) →
              ∀ s, s = c.watch.suffix ∨ s = c.watch.errorSuffix →
                s ≠ [] → Path.extension s = s → Text.toLower s = s → ¬Reenters c.watch s))
      ∧ ∀ s, ¬Path.Plain s → (Reenters c.watch s ↔ hasExtension c.watch s = true) := by
  refine ⟨fun _ => Config.checkWatch_of_validate, fun hchecked => ⟨?_, ?_⟩,
    fun s hs => reenters_iff_of_not_plain hs⟩
  · rw [← apart_iff hchecked c.watch.suffix, ← apart_iff hchecked c.watch.errorSuffix]
    constructor
    · intro hsafe
      exact ⟨fun p hp => hsafe p hp false, fun p hp => hsafe p hp true⟩
    · rintro ⟨houtput, hreport⟩ p hp report
      cases report with
      | false => exact houtput p hp
      | true => exact hreport p hp
  · intro hextensions s hsuffix hne hs hlower
    refine not_reenters_of_lower hs hne hlower fun x hx => ⟨hextensions x hx, ?_⟩
    obtain ⟨-, houtput, hreport⟩ := Config.checkWatch_extension hchecked hx
    rcases hsuffix with rfl | rfl
    · exact houtput
    · exact hreport

/-- The defaults, with outputs that differ from the sources in the case of letters alone. -/
def shouting : Config :=
  { Config.default with watch := { Config.default.watch with suffix := ".TEX" } }

/-- Some output of the first settings, which pass validation, is a source again; nothing that is
written under the defaults is. -/
theorem shouting_outputs_are_sources :
    shouting.validate Config.Formats.inUse.schedule = .ok ()
      ∧ Config.checkWatch shouting.watch = []
      ∧ ¬(∀ p, isSource shouting.watch p = true → ∀ report,
          productPath shouting.watch p report ≠ p
            ∧ hasExtension shouting.watch (productPath shouting.watch p report) = false)
      ∧ ∀ p, isSource Config.default.watch p = true → ∀ report,
          productPath Config.default.watch p report ≠ p
            ∧ hasExtension Config.default.watch (productPath Config.default.watch p report)
              = false := by
  have hvalid : shouting.validate Config.Formats.inUse.schedule = .ok () := rfl
  obtain ⟨hwatch, hshouting, hread⟩ := products_apart_iff shouting
  have hchecked : Config.checkWatch shouting.watch = [] := hwatch _ hvalid
  obtain ⟨-, hdefault, -⟩ := products_apart_iff Config.default
  obtain ⟨hsafe, hlower⟩ := hdefault (by decide)
  refine ⟨hvalid, hchecked, ?_, ?_⟩
  · rw [(hshouting hchecked).1]
    intro hnone
    have hdotted : ¬Path.Plain shouting.watch.suffix := fun hplain => hplain.1 (by decide)
    exact hnone.1 ((hread _ hdotted).mpr (by decide))
  · rw [hsafe]
    have hextensions : ∀ x ∈ Config.default.watch.extensions, Text.toLower x = x := by decide
    exact ⟨hlower hextensions _ (.inl rfl) (by decide) (by decide) (by decide),
      hlower hextensions _ (.inr rfl) (by decide) (by decide) (by decide)⟩

end Watch

end MathMarkup

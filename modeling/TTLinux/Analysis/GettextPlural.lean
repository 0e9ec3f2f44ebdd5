import TTLinux.Analysis.GettextLookup

/-!
# Plural forms

For a number other than one `dcngettext` steps behind the first zero byte of the translation. The forms of a
translation are separated by zero bytes, and its length is in its descriptor, which is not looked at: behind a
translation with one form only stands whatever comes next in the file.
-/

set_option autoImplicit false

namespace TTLinux.Analysis.GettextPlural

open TTLinux.Lib TTLinux.Model.Gettext
open TTLinux.Analysis.GettextLookup

/-- **The form of an entry for a number other than one**: the second one if there is one, which starts inside of the
translation and is in the image from there on; else the first one or what the caller gave as plural. -/
def OwnForm (img : Bytes) (off : ℕ) (x : Entry) (out : Outcome) : Prop :=
  if (0 : UInt8) ∈ x.trans then
    ∃ first second, x.trans = first ++ 0 :: second ∧ (0 : UInt8) ∉ first ∧
      out = .returned (.data (off + first.length + 1)) ∧ second ++ [0] <+: img.drop (off + first.length + 1)
  else out = .returned (.data off) ∨ out = .returned .plural ∨ out = .returned .null

/-- INTERNAL: the end of the first form. -/
theorem strend_append (first rest : Bytes) (h : (0 : UInt8) ∉ first) : strend (first ++ 0 :: rest) = some first.length := by
  induction first with
  | nil => rfl
  | cons b first ih =>
    have hb : b ≠ 0 := fun heq => h (heq ▸ List.mem_cons_self)
    rw [List.cons_append, strend, if_neg hb, ih (fun hmem => h (List.mem_cons_of_mem b hmem)), Option.map_some,
      List.length_cons]

/-- INTERNAL: **behind the first zero byte** of a translation.
SOURCE: dietlibc-gettext.patch:285-292 -/
theorem translation_behind (img first rest : Bytes) (off num : ℕ) (hnum : num ≠ 1) (h : (0 : UInt8) ∉ first)
    (hdrop : img.drop off = first ++ 0 :: rest) :
    translation img off num = .returned (.data (off + first.length + 1)) := by
  unfold translation
  rw [if_neg hnum, hdrop, strend_append first rest h]

/-- INTERNAL: a translation with two forms.
SOURCE: dietlibc-gettext.patch:285-292 -/
theorem ownForm_of_two (img : Bytes) (off : ℕ) (x : Entry) (num : ℕ) (hnum : num ≠ 1)
    (hstring : x.trans ++ [0] <+: img.drop off) (hzero : (0 : UInt8) ∈ x.trans) :
    OwnForm img off x (translation img off num) := by
  obtain ⟨first, second, htrans, hfirst⟩ := List.eq_append_cons_of_mem hzero
  obtain ⟨rest, hrest⟩ := hstring
  have hdrop : img.drop off = first ++ 0 :: (second ++ [0] ++ rest) := by
    rw [← hrest, htrans]
    simp
  have hbehind : img.drop (off + first.length + 1) = second ++ [0] ++ rest := by
    rw [Nat.add_assoc, ← List.drop_drop, hdrop, List.drop_append]
    simp
  unfold OwnForm
  rw [if_pos hzero]
  refine ⟨first, second, htrans, hfirst, translation_behind img first _ off num hnum hfirst hdrop, rest, ?_⟩
  rw [hbehind]

/-- INTERNAL: a translation with one form: what is returned starts behind it.
SOURCE: dietlibc-gettext.patch:285-292 -/
theorem translation_of_one (img : Bytes) (off : ℕ) (x : Entry) (num : ℕ) (hnum : num ≠ 1)
    (hstring : x.trans ++ [0] <+: img.drop off) (hzero : (0 : UInt8) ∉ x.trans) :
    translation img off num = .returned (.data (off + x.trans.length + 1)) := by
  obtain ⟨rest, hrest⟩ := hstring
  apply translation_behind img x.trans rest off num hnum hzero
  rw [← hrest, List.append_assoc]
  rfl

/-- INTERNAL: `dcngettext` for a number other than one.
SOURCE: dietlibc-gettext.patch:235-252 -/
theorem dcngettext_plural (e : Endian) (w fuel : ℕ) (img msgid : Bytes) (msgid_plural : Option Bytes) (num : ℕ)
    (hnum : num ≠ 1) :
    (∃ p, msgid_plural = some p ∧ p ≠ []) ∧
        dcngettext e w fuel (some img) (some msgid) msgid_plural num =
          lookupCatalog e w fuel img .plural msgid num ∨
      (¬∃ p, msgid_plural = some p ∧ p ≠ []) ∧
        (dcngettext e w fuel (some img) (some msgid) msgid_plural num = .returned .plural ∨
          dcngettext e w fuel (some img) (some msgid) msgid_plural num = .returned .null) := by
  unfold dcngettext
  simp only [if_neg hnum]
  cases msgid_plural with
  | none => exact Or.inr ⟨by simp, Or.inr rfl⟩
  | some p =>
    dsimp only
    by_cases hp : p = []
    · rw [if_pos hp]
      exact Or.inr ⟨by simp [hp], Or.inl rfl⟩
    · rw [if_neg hp]
      exact Or.inl ⟨⟨p, rfl, hp⟩, rfl⟩

/-- **For a number other than one `dcngettext` returns the form of the entry exactly if the translation has two
forms and the caller gives a plural, or neither.** Else it returns what stands in the file behind the translation,
or the plural of the caller where the translation has one of its own.
SOURCE: dietlibc-gettext.patch:235-295 -/
theorem own_form_iff (e : Endian) (w : ℕ) (hw : 32 ≤ w) (img : Bytes) (entries : List Entry) (L : Layout)
    (hcat : IsCatalog e img entries L) (i : ℕ) (x : Entry) (hx : entries[i]? = some x) (msgid_plural : Option Bytes)
    (num : ℕ) (hnum : num ≠ 1) :
    ∃ turns, ∀ fuel, turns ≤ fuel →
      (OwnForm img (L.trans i) x (dcngettext e w fuel (some img) (some x.msgid) msgid_plural num) ↔
        ((0 : UInt8) ∈ x.trans ↔ ∃ p, msgid_plural = some p ∧ p ≠ [])) := by
  have hmsg : (0 : UInt8) ∉ x.msgid := zero_notMem_cstr x.orig
  obtain ⟨hhit, k, hval, hpath⟩ := hcat.stop_at_entry _ _ _ _ x.msgid i x hx rfl
  obtain ⟨-, hoff⟩ := hcat.transDesc i x hx
  have hstring := hcat.transString i x hx
  refine ⟨k + 1, fun fuel hfuel => ?_⟩
  have hlookup : lookupCatalog e w fuel img .plural x.msgid num = translation img (L.trans i) num :=
    lookupCatalog_found e img L.otab L.ttab L.htab entries.length L.size _ x.msgid _ hcat.header
      (hcat.view _ _ _ _ x.msgid hmsg) w hw .plural num k i (L.trans i) hval hhit hpath hoff.1 hoff.2 fuel (by omega)
  rcases dcngettext_plural e w fuel img x.msgid msgid_plural num hnum with ⟨hplural, hcall⟩ | ⟨hnone, hcall⟩
  · rw [hcall, hlookup, iff_true_right hplural]
    by_cases hzero : (0 : UInt8) ∈ x.trans
    · exact iff_of_true (ownForm_of_two img (L.trans i) x num hnum hstring hzero) hzero
    · refine iff_of_false ?_ hzero
      rw [OwnForm, if_neg hzero, translation_of_one img (L.trans i) x num hnum hstring hzero]
      simp
      omega
  · rw [iff_false_right hnone]
    by_cases hzero : (0 : UInt8) ∈ x.trans
    · refine iff_of_false ?_ (not_not.mpr hzero)
      rw [OwnForm, if_pos hzero]
      rintro ⟨first, second, -, -, hout, -⟩
      rw [hout] at hcall
      simp at hcall
    · refine iff_of_true ?_ hzero
      rw [OwnForm, if_neg hzero]
      exact Or.inr hcall

/-- **Behind the translation**: the only form of `a` in the small catalog is `b`, at 58, and `dcngettext` returns the
end of the image, behind its last byte. -/
theorem single_form_left_behind :
    IsCatalog .little (sampleImage 97 0 1 0) (sampleEntries 97) sampleLayout ∧
      (sampleEntries 97)[0]? = some ⟨[97], ascii ['b']⟩ ∧
      dcngettext .little 64 9 (some (sampleImage 97 0 1 0)) (some [97]) (some (ascii ['c'])) 2 =
        .returned (.data 60) ∧
      ¬OwnForm (sampleImage 97 0 1 0) (sampleLayout.trans 0) ⟨[97], ascii ['b']⟩
        (dcngettext .little 64 9 (some (sampleImage 97 0 1 0)) (some [97]) (some (ascii ['c'])) 2) := by
  have hcall : dcngettext .little 64 9 (some (sampleImage 97 0 1 0)) (some [97]) (some (ascii ['c'])) 2 =
      .returned (.data 60) := by
    decide +kernel
  refine ⟨sampleImage_isCatalog 97 0 1 0 ⟨0, by decide, by decide⟩ (by decide), rfl, hcall, ?_⟩
  rw [hcall, OwnForm, if_neg (by decide)]
  decide

/-- A catalog with one message, `a`, translated `b` and in the plural `c`. -/
def formsEntries : List Entry := [⟨ascii ['a'], ascii ['b', '\x00', 'c']⟩]

/-- Its image in little-endian byte order. -/
def formsImage : Bytes :=
  [0xde, 0x12, 0x04, 0x95, 0, 0, 0, 0, 1, 0, 0, 0, 28, 0, 0, 0, 36, 0, 0, 0, 3, 0, 0, 0, 44, 0, 0, 0,
    1, 0, 0, 0, 56, 0, 0, 0, 3, 0, 0, 0, 58, 0, 0, 0, 0, 0, 0, 0, 1, 0, 0, 0, 0, 0, 0, 0,
    97, 0, 98, 0, 99, 0]

/-- INTERNAL: the example is a catalog. -/
theorem formsImage_isCatalog : IsCatalog .little formsImage formsEntries sampleLayout := by
  have hget : ∀ i x, formsEntries[i]? = some x → i = 0 ∧ x = ⟨ascii ['a'], ascii ['b', '\x00', 'c']⟩ := by
    intro i x hx
    cases i with
    | zero => exact ⟨rfl, (Option.some.inj hx).symm⟩
    | succ i => cases hx
  refine ⟨⟨by decide, by decide, by decide, by decide, by decide, Nat.prime_three, by decide,
    ⟨0, by decide, by decide⟩, by decide, ?_, ?_, ?_, ?_, List.nodup_singleton _, Or.inl (by decide)⟩, by decide⟩
  · intro i x hx
    obtain ⟨rfl, rfl⟩ := hget i x hx
    exact ⟨by decide, by decide⟩
  · intro i x hx
    obtain ⟨rfl, rfl⟩ := hget i x hx
    exact ⟨by decide, by decide⟩
  · intro i x hx
    obtain ⟨rfl, rfl⟩ := hget i x hx
    exact ⟨[98, 0, 99, 0], rfl⟩
  · intro i x hx
    obtain ⟨rfl, rfl⟩ := hget i x hx
    exact ⟨[], rfl⟩

/-- **With two forms the second one is returned.** -/
theorem own_form_iff_of_two :
    ∃ turns, ∀ fuel, turns ≤ fuel →
      OwnForm formsImage 58 ⟨ascii ['a'], ascii ['b', '\x00', 'c']⟩
        (dcngettext .little 64 fuel (some formsImage) (some (ascii ['a'])) (some (ascii ['c'])) 2) := by
  obtain ⟨turns, hform⟩ := own_form_iff .little 64 (by decide) formsImage formsEntries sampleLayout formsImage_isCatalog 0
    ⟨ascii ['a'], ascii ['b', '\x00', 'c']⟩ rfl (some (ascii ['c'])) 2 (by decide)
  refine ⟨turns, fun fuel hfuel => (hform fuel hfuel).mpr ?_⟩
  exact iff_of_true (by decide) ⟨ascii ['c'], rfl, by decide⟩

end TTLinux.Analysis.GettextPlural

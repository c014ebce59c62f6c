import Outreach.Salesforce.Webhook
import Outreach.Cleansing.Normalize

/-!
# The number of an inbound sender

`TwilioWebhook.normalizePhone` counts digits and drops the plus. It gives a number
in E.164 back unless the count is that of a US number written some other way.
-/

namespace Outreach.Salesforce

open Outreach.Library

set_option autoImplicit false

/-- A sender with the number `s` is matched to a lead that has it, if there is one and to no
other, and `s` is mirrored when the sender opts out. -/
structure KnowsSender (s : Text) : Prop where
  fixed : normalizePhone (some s) = some s
  own (db : Database) (form : InboundForm) (sid : Text) (matched : Option Lead) :
    form.fromNumber = some s → inboundQuery db form = .unlogged sid matched →
      (matched.isSome = true ↔ ∃ l ∈ db.leads.rows, l.phone = some s) ∧
        ∀ l, matched = some l → l.phone = some s
  mirrored (U : UnicodeData) (now : Time) (form : InboundForm) (matched : Option Lead)
    (messageId : Id) (db : Database) :
    form.fromNumber = some s → suppresses U form.body →
      ∃ job : SyncJob, (persistVerdict U now form matched messageId db).jobs = db.jobs ++ [job] ∧
        job.identifier = s

section Digits

variable {ds : Text}

theorem filter_plus (h : ∀ d ∈ ds, d.isDigit = true) : ('+' :: ds).filter isDigit = ds := by
  have hdigit : ∀ d ∈ ds, isDigit d = true := by
    intro d hd
    have hrange := Cleansing.digit_range (h d hd)
    rw [isDigit, Bool.and_eq_true, decide_eq_true_eq, decide_eq_true_eq]
    exact hrange
  rw [List.filter_cons_of_neg (by decide), List.filter_eq_self.mpr hdigit]

theorem trim_plus (h : ∀ d ∈ ds, d.isDigit = true) : trim ('+' :: ds) = '+' :: ds := by
  refine stripBy_of_none fun c hc => ?_
  rcases List.mem_cons.mp hc with rfl | hd
  · rfl
  · have hrange := Cleansing.digit_range (h c hd)
    exact decide_eq_false (by omega)

/-- What `normalizePhone` makes of a plus and digits. -/
theorem normalizePhone_plus (h : ∀ d ∈ ds, d.isDigit = true) :
    normalizePhone (some ('+' :: ds)) =
      if ds.length = 10 then some ("+1".toList ++ ds)
      else if ds.length = 11 ∧ ds.head? = some '1' then some ('+' :: ds)
      else if 11 < ds.length then some ('+' :: ds)
      else none := by
  have hblank : ¬ isBlank (some ('+' :: ds)) = true := Bool.false_ne_true
  have hplus : (trim ('+' :: ds)).head? = some '+' := by rw [trim_plus h]; rfl
  simp only [normalizePhone, if_neg hblank, filter_plus h, hplus, true_and]

theorem normalizePhone_fixed_iff (h : ∀ d ∈ ds, d.isDigit = true) :
    normalizePhone (some ('+' :: ds)) = some ('+' :: ds) ↔
      12 ≤ ds.length ∨ (ds.length = 11 ∧ ds.head? = some '1') := by
  rw [normalizePhone_plus h]
  by_cases hten : ds.length = 10
  · rw [if_pos hten]
    apply iff_of_false
    · intro hsame
      have hlen := congrArg List.length (Option.some.inj hsame)
      simp at hlen
    · omega
  rw [if_neg hten]
  by_cases heleven : ds.length = 11 ∧ ds.head? = some '1'
  · rw [if_pos heleven]
    exact iff_of_true rfl (Or.inr heleven)
  rw [if_neg heleven, or_iff_left heleven]
  by_cases hlong : 11 < ds.length
  · rw [if_pos hlong]
    exact iff_of_true rfl hlong
  · rw [if_neg hlong]
    exact iff_of_false (fun h => nomatch h) hlong

end Digits

theorem matchLead_isSome {db : Database} {n : Text} :
    (matchLead db (some n)).isSome = true ↔ ∃ l ∈ db.leads.rows, l.phone = some n := by
  rw [matchLead, limitOne_isSome]
  refine exists_congr fun l => ?_
  rw [List.mem_filter, decide_eq_true_eq]

theorem knowsSender_of_fixed {s : Text} (h : normalizePhone (some s) = some s) :
    KnowsSender s where
  fixed := h
  own db form sid matched hfrom hquery := by
    have hmatched : matched = matchLead db (some s) := by
      rw [inboundQuery_matched hquery, hfrom, h]
    rw [hmatched]
    exact ⟨matchLead_isSome, fun l hl => (matchLead_phone hl).2⟩
  mirrored U now form matched messageId db hfrom hstop := by
    have hjob : mirrorJob U form matched messageId =
        some ⟨s, (verdict U form.body ((matched.bind Lead.autoReplyCount).getD 0)).rule,
          messageId, 0⟩ :=
      (mirrorJob_eq_some U form matched).mpr ⟨hstop, s, by rw [hfrom, h], rfl⟩
    have hwrites := (persistVerdict_writes U now form matched messageId db).2
    rw [hjob] at hwrites
    exact ⟨_, hwrites, rfl⟩

/-- A number that the pipeline writes is known exactly if it has twelve digits or more, or is a
US number with its country code. -/
theorem knowsSender_iff {ν : Type} {U : UnicodeData} {P : Cleansing.PhoneNumbers ν}
    (hP : P.Lawful) {raw : Option Text} {s : Text}
    (hs : Cleansing.normalizePhone U P raw = some s) :
    KnowsSender s ↔ ∃ ds, s = '+' :: ds ∧
      (12 ≤ ds.length ∨ (ds.length = 11 ∧ ds.head? = some '1')) := by
  obtain ⟨ds, rfl, hdigits⟩ := Cleansing.normalizePhone_shape U P hP hs
  constructor
  · intro h
    exact ⟨ds, rfl, (normalizePhone_fixed_iff hdigits).mp h.fixed⟩
  · intro h
    obtain ⟨_, ⟨⟩, hlength⟩ := h
    exact knowsSender_of_fixed ((normalizePhone_fixed_iff hdigits).mpr hlength)

/-- A London number. -/
theorem knowsSender_london : KnowsSender "+442079460958".toList := by
  have hs : Cleansing.normalizePhone .plain .worldwide (some "+442079460958".toList) =
      some "+442079460958".toList := by
    decide +kernel
  exact (knowsSender_iff Cleansing.PhoneNumbers.worldwide_lawful hs).mpr
    ⟨"442079460958".toList, rfl, Or.inl (by decide)⟩

/-- A Danish number has ten digits, and becomes a number in Oregon. -/
theorem danish_taken_for_american :
    Cleansing.normalizePhone .plain .worldwide (some "+4582345678".toList) =
        some "+4582345678".toList ∧
      normalizePhone (some "+4582345678".toList) = some "+14582345678".toList ∧
      ¬ KnowsSender "+4582345678".toList := by
  have hother : normalizePhone (some "+4582345678".toList) = some "+14582345678".toList := by
    decide +kernel
  refine ⟨by decide +kernel, hother, ?_⟩
  intro h
  exact absurd (hother.symm.trans h.fixed) (by decide)

end Outreach.Salesforce

import Outreach.Classifier.LambdaApi
import Outreach.Library.Sorted
import Outreach.Library.UrlForm

/-!
# The rule-set hash: `rule_set_hash` of `classifier/handler.py`

The digest is fed the four rule sources and then the names of the handoff set,
sorted and joined by commas. Nothing says where one part ends and the next
begins, and a name from a JSON list may hold a comma itself.
-/

namespace Outreach.Classifier

open Outreach.Library Outreach.Guardrails

set_option autoImplicit false

/-- The contents of `_RULE_SOURCES`. -/
structure RuleSources where
  rules : Bytes
  text : Bytes
  buckets : Bytes
  handler : Bytes
  deriving DecidableEq

def RuleSources.files (s : RuleSources) : List Bytes := [s.rules, s.text, s.buckets, s.handler]

/-- What two instances of the classifier may differ in. -/
structure Deployment where
  sources : RuleSources
  handoffEnv : Option Str
  readText : Str → Except PyError Str

variable {φ : Type} (py : Python φ) (limit : Nat)

def Deployment.host (d : Deployment) : Host φ := ⟨py, limit, d.handoffEnv, d.readText⟩

/-- `sorted(handoff_intents())` -/
def sortedIntents (handoff : List Str) : List Str := sortOn Str.points handoff.dedup

/-- `",".join(sorted(handoff_intents()))` -/
def handoffText (handoff : List Str) : Str := join (.scalar ',') (sortedIntents handoff)

/-- What is fed to the digest. -/
def Deployment.hashedBytes (d : Deployment) : Except PyError Bytes := do
  let handoff ← (d.host py limit).handoffIntents
  if (handoffText handoff).encodable then
    return d.sources.files.flatten ++ utf8 (handoffText handoff).shown
  else .error "UnicodeEncodeError".toList

/-- `rule_set_hash` -/
def Deployment.ruleSetHash (sha256 : Bytes → Bytes) (d : Deployment) : Except PyError Text := do
  let bytes ← d.hashedBytes py limit
  return hexdigest (sha256 bytes)

/-! ## What the bytes determine -/

/-- The digest is fed `bytes` when the handoff set is `handoff`. -/
def Deployment.Feeds (d : Deployment) (handoff : List Str) (bytes : Bytes) : Prop :=
  (handoffText handoff).encodable = true ∧
    bytes = d.sources.files.flatten ++ utf8 (handoffText handoff).shown

theorem hashedBytes_eq_ok {py : Python φ} {limit : Nat} {d : Deployment} {bytes : Bytes} :
    d.hashedBytes py limit = .ok bytes ↔
      ∃ handoff, (d.host py limit).handoffIntents = .ok handoff ∧ d.Feeds handoff bytes := by
  constructor
  · intro h
    obtain ⟨handoff, hhandoff, h⟩ := bind_eq_ok.mp h
    split at h
    · rename_i hencodable
      cases h
      exact ⟨handoff, hhandoff, hencodable, rfl⟩
    · cases h
  · intro h
    obtain ⟨handoff, hhandoff, hencodable, rfl⟩ := h
    refine bind_eq_ok.mpr ⟨handoff, hhandoff, ?_⟩
    simp only [hencodable, if_true]
    rfl

theorem eq_ofText_of_encodable {s : Str} (h : s.encodable = true) : s = Str.ofText s.shown := by
  induction s with
  | nil => rfl
  | cons c s ih =>
    rw [Str.encodable, List.all_cons, Bool.and_eq_true] at h
    cases c with
    | scalar c => exact congrArg (CodePoint.scalar c :: ·) (ih h.2)
    | surrogate n => exact absurd h.1 Bool.false_ne_true

theorem flatten_append_inj {l m : List Bytes} {s t : Bytes}
    (hlen : l.map List.length = m.map List.length) (h : l.flatten ++ s = m.flatten ++ t) :
    l = m ∧ s = t := by
  have hflat : l.flatten.length = m.flatten.length := by
    rw [List.length_flatten, List.length_flatten, hlen]
  obtain ⟨hflatten, hrest⟩ := List.append_inj h hflat
  exact ⟨List.eq_iff_flatten_eq.mpr ⟨hflatten, hlen⟩, hrest⟩

theorem RuleSources.files_injective : Function.Injective RuleSources.files := by
  intro s t h
  cases s
  cases t
  simpa [RuleSources.files] using h

/-- The bytes and the sizes of the files give the files and the text of the set. -/
theorem Deployment.Feeds.eq_of_sizes {c d : Deployment} {hc hd : List Str} {bytes : Bytes}
    (hcbytes : c.Feeds hc bytes) (hdbytes : d.Feeds hd bytes)
    (hsizes : c.sources.files.map List.length = d.sources.files.map List.length) :
    c.sources = d.sources ∧ handoffText hc = handoffText hd := by
  obtain ⟨hcencodable, hcbytes⟩ := hcbytes
  obtain ⟨hdencodable, hdbytes⟩ := hdbytes
  obtain ⟨hfiles, htext⟩ := flatten_append_inj hsizes (hcbytes.symm.trans hdbytes)
  refine ⟨RuleSources.files_injective hfiles, ?_⟩
  rw [eq_ofText_of_encodable hcencodable, eq_ofText_of_encodable hdencodable,
    Utf8.utf8_injective htext]

/-- The places at which the hashed bytes are cut: the sizes of the files, and those of the
sorted names. -/
def Deployment.cuts (d : Deployment) (handoff : List Str) : List Nat × List Nat :=
  (d.sources.files.map List.length, (sortedIntents handoff).map List.length)

/-- One sequence of bytes stands for one set of files and names just if it is cut in one way. -/
theorem cuts_eq_iff_rules {c d : Deployment} {bytes : Bytes} {hc hd : List Str}
    (hcbytes : c.Feeds hc bytes) (hdbytes : d.Feeds hd bytes) :
    c.cuts hc = d.cuts hd ↔
      c.sources = d.sources ∧ ∀ intent, intent ∈ hc ↔ intent ∈ hd := by
  rw [← sortOn_dedup_eq_iff Str.points_injective]
  constructor
  · intro h
    obtain ⟨hsizes, hnames⟩ := Prod.mk.inj h
    obtain ⟨hsources, htext⟩ := hcbytes.eq_of_sizes hdbytes hsizes
    exact ⟨hsources, join_inj_of_lengths htext hnames⟩
  · intro h
    obtain ⟨hsources, hnames⟩ := h
    rw [Deployment.cuts, Deployment.cuts, hsources, sortedIntents, hnames, sortedIntents]

/-! ## What the rules determine -/

section Rules

variable {py limit} {c d : Deployment} {hc hd : List Str}

/-- `classify` asks the handoff set for membership only. -/
theorem classify_congr (hcset : (c.host py limit).handoffIntents = .ok hc)
    (hdset : (d.host py limit).handoffIntents = .ok hd)
    (h : ∀ intent, intent ∈ hc ↔ intent ∈ hd) (latency : φ) (request : Members φ) :
    classify (c.host py limit) latency request = classify (d.host py limit) latency request := by
  have hcontains : ∀ intent, hc.contains intent = hd.contains intent := fun intent => by
    rw [Bool.eq_iff_iff, List.contains_iff_mem, List.contains_iff_mem, h]
  have hrespond : ∀ body verdict, respond (c.host py limit) latency body verdict =
      respond (d.host py limit) latency body verdict := fun body verdict => by
    unfold respond
    rw [hcset, hdset]
    cases verdict.action with
    | suppressAndStop => rfl
    | humanReview => rfl
    | proceed =>
      show (if hc.contains _ = true then _ else _) = if hd.contains _ = true then _ else _
      rw [hcontains]
      rfl
  have hattempt : attempt (c.host py limit) latency request =
      attempt (d.host py limit) latency request := by
    unfold attempt
    simp only [hrespond]
    rfl
  rw [classify, classify, hattempt]

/-- Two instances with the same hashed bytes have the same rules just if the bytes are cut at
the same places. -/
theorem same_bytes_same_rules {bytes : Bytes} (hcbytes : c.hashedBytes py limit = .ok bytes)
    (hdbytes : d.hashedBytes py limit = .ok bytes) :
    ∃ hc hd, (c.host py limit).handoffIntents = .ok hc ∧
      (d.host py limit).handoffIntents = .ok hd ∧
      ((c.sources = d.sources ∧ (∀ intent, intent ∈ hc ↔ intent ∈ hd) ∧
          ∀ latency request, classify (c.host py limit) latency request =
            classify (d.host py limit) latency request) ↔
        c.cuts hc = d.cuts hd) := by
  obtain ⟨hc, hcset, hcbytes⟩ := hashedBytes_eq_ok.mp hcbytes
  obtain ⟨hd, hdset, hdbytes⟩ := hashedBytes_eq_ok.mp hdbytes
  refine ⟨hc, hd, hcset, hdset, ?_⟩
  rw [cuts_eq_iff_rules hcbytes hdbytes]
  constructor
  · rintro ⟨hsources, hintents, -⟩
    exact ⟨hsources, hintents⟩
  · rintro ⟨hsources, hintents⟩
    exact ⟨hsources, hintents, classify_congr hcset hdset hintents⟩

end Rules

/-! ## Names without commas -/

/-- Names that a comma list can hold. -/
def Plain (handoff : List Str) : Prop :=
  ∀ intent ∈ handoff, intent ≠ [] ∧ CodePoint.scalar ',' ∉ intent

theorem plain_commaList (text : Str) : Plain (commaList text) := by
  intro intent h
  obtain ⟨hpart, hne⟩ := List.mem_filter.mp h
  obtain ⟨part, hmem, rfl⟩ := List.mem_map.mp hpart
  have hcomma : CodePoint.scalar ',' ∉ part := notMem_of_mem_splitAtFrom List.not_mem_nil hmem
  refine ⟨fun hnil => ?_, fun hstrip => hcomma (mem_stripBy hstrip)⟩
  rw [hnil] at hne
  exact absurd hne Bool.false_ne_true

theorem mem_of_mem_sortedIntents {handoff : List Str} {intent : Str}
    (h : intent ∈ sortedIntents handoff) : intent ∈ handoff :=
  List.mem_dedup.mp ((sortOn_perm Str.points _).mem_iff.mp h)

theorem handoffText_eq_nil {handoff : List Str} (hplain : Plain handoff)
    (h : handoffText handoff = []) : sortedIntents handoff = [] := by
  cases hsorted : sortedIntents handoff with
  | nil => rfl
  | cons w rest =>
    have hw := (hplain w (mem_of_mem_sortedIntents (hsorted ▸ List.mem_cons_self))).1
    rw [handoffText, hsorted] at h
    cases rest with
    | nil => exact absurd ((join_singleton _ w).symm.trans h) hw
    | cons v rest =>
      rw [join_cons_cons] at h
      exact absurd (List.append_eq_nil_iff.mp h).1 hw

theorem handoffText_inj {hc hd : List Str} (hcplain : Plain hc) (hdplain : Plain hd)
    (h : handoffText hc = handoffText hd) : sortedIntents hc = sortedIntents hd := by
  have hnil : ∀ {handoff : List Str}, sortedIntents handoff = [] → handoffText handoff = [] :=
    fun hsorted => by rw [handoffText, hsorted]; rfl
  by_cases hc' : sortedIntents hc = []
  · rw [hc', handoffText_eq_nil hdplain (h.symm.trans (hnil hc'))]
  by_cases hd' : sortedIntents hd = []
  · rw [hd', handoffText_eq_nil hcplain (h.trans (hnil hd'))]
  · exact join_inj_of_notMem hc' hd'
      (fun w hw => (hcplain w (mem_of_mem_sortedIntents hw)).2)
      (fun w hw => (hdplain w (mem_of_mem_sortedIntents hw)).2) h

/-- Files of known sizes and names without commas are known from the bytes. -/
theorem cuts_of_plain {c d : Deployment} {bytes : Bytes} {hc hd : List Str}
    (hsizes : c.sources.files.map List.length = d.sources.files.map List.length)
    (hcplain : Plain hc) (hdplain : Plain hd) (hcbytes : c.Feeds hc bytes)
    (hdbytes : d.Feeds hd bytes) : c.cuts hc = d.cuts hd := by
  have htext := (hcbytes.eq_of_sizes hdbytes hsizes).2
  rw [Deployment.cuts, Deployment.cuts, hsizes, handoffText_inj hcplain hdplain htext]

/-! ## Two ways to write one text -/

def someSources : RuleSources :=
  ⟨utf8 "rules".toList, utf8 "text".toList, utf8 "buckets".toList, utf8 "handler".toList⟩

def listed : Deployment where
  sources := someSources
  handoffEnv := some (Str.ofString "Interested,Question")
  readText _ := .error "FileNotFoundError".toList

/-- The file holds a list of one name. -/
def oneName : Deployment where
  sources := someSources
  handoffEnv := some (Str.ofString "handoff.json")
  readText _ := .ok (Str.ofString "[\"Interested,Question\"]")

/-- The same list with a space. -/
def spaced : Deployment where
  sources := someSources
  handoffEnv := some (Str.ofString "Question, Interested")
  readText _ := .error "FileNotFoundError".toList

def interestedReply : Members Unit :=
  [(Str.ofString "body", .string (Str.ofString "yes, I am interested"))]

def sameBytes : Bytes :=
  someSources.files.flatten ++ utf8 "Interested,Question".toList

theorem toOption_eq_some {ε α : Type} {x : Except ε α} {a : α} (h : x.toOption = some a) :
    x = .ok a := by
  cases x with
  | error e => exact absurd h.symm (Option.some_ne_none a)
  | ok b => exact congrArg Except.ok (Option.some.inj h)

/-- The order of a list and its spaces make no difference. -/
theorem same_bytes_same_rules_spaced :
    ∃ hc hd, (listed.host Python.plain 1000).handoffIntents = .ok hc ∧
      (spaced.host Python.plain 1000).handoffIntents = .ok hd ∧
      ((listed.sources = spaced.sources ∧ (∀ intent, intent ∈ hc ↔ intent ∈ hd) ∧
          ∀ latency request, classify (listed.host Python.plain 1000) latency request =
            classify (spaced.host Python.plain 1000) latency request) ↔
        listed.cuts hc = spaced.cuts hd) := by
  have hlisted : listed.hashedBytes Python.plain 1000 = .ok sameBytes :=
    toOption_eq_some (by decide +kernel)
  have hspaced : spaced.hashedBytes Python.plain 1000 = .ok sameBytes :=
    toOption_eq_some (by decide +kernel)
  exact same_bytes_same_rules hlisted hspaced

/-- An instance with the one name and an instance with the list hash alike, and only the second
hands a reply with interest to a person. -/
theorem same_bytes_other_rules :
    ¬ ∀ (φ : Type) (py : Python φ) (limit : Nat) (c d : Deployment) (bytes : Bytes),
      c.hashedBytes py limit = .ok bytes → d.hashedBytes py limit = .ok bytes →
      ∃ hc hd, (c.host py limit).handoffIntents = .ok hc ∧
        (d.host py limit).handoffIntents = .ok hd ∧ c.sources = d.sources ∧
        (∀ intent, intent ∈ hc ↔ intent ∈ hd) ∧
        ∀ latency request, classify (c.host py limit) latency request =
          classify (d.host py limit) latency request := by
  intro h
  have hlisted : listed.hashedBytes Python.plain 1000 = .ok sameBytes :=
    toOption_eq_some (by decide +kernel)
  have hone : oneName.hashedBytes Python.plain 1000 = .ok sameBytes :=
    toOption_eq_some (by decide +kernel)
  obtain ⟨_, _, -, -, -, -, hsame⟩ := h Unit Python.plain 1000 listed oneName sameBytes hlisted hone
  have hactions := congrArg (fun r => r.toOption.map Response.action) (hsame () interestedReply)
  exact absurd hactions (by decide +kernel)

end Outreach.Classifier

import Outreach.Library.Machine
import Outreach.TextTorrent.Requests
import Outreach.TextTorrent.RoundTrip

/-!
# The nightly reconciliation while both lists are in use

The run of `texttorrent/reconcile.py` against `tests/fake_texttorrent.py`, one request
and one put at a time. In between, other clients of the vendor make the requests that the
fake serves, and other writers append to our log. The fake puts what is blocked at the end
of its list and takes nothing off; the vendor's `/remove` of a blocked number, which the
fake does not serve and the repository does not call, is left out. The list that is pulled
is then the vendor's at the last page, and a run that comes to its end has brought to
either side what the other held when it began.
-/

namespace Outreach.TextTorrent.Nightly

open Outreach.Library Outreach.Cleansing Outreach.Suppression Outreach.TextTorrent
open Outreach.TextTorrent.Client Outreach.TextTorrent.Vendor

set_option autoImplicit false

/-- Where the handler is: what it does next, or how it ended. -/
inductive Phase where
  /-- the page that `blocked_numbers` asks for next, and the numbers so far -/
  | pulling (page : Nat) (raw : List Str)
  /-- `current_identifiers` -/
  | listing (raw : List Text)
  /-- the numbers that are still to be added, and the ones to be pushed then -/
  | adding (store : SuppressionStore) (now : Int) (numbers pushed : List Text)
  | done (pushed : List Text)
  | failed

structure World where
  vendor : FakeTextTorrent
  log : List Event
  phase : Phase

inductive Label where
  /-- the handler makes its next request to the vendor -/
  | request
  /-- the handler lists the log, if the listing answers, and reads its clocks -/
  | list (listed : Bool) (monotonic now : Int)
  /-- the next `add_suppression` -/
  | put (put : Put) (eventId : Text)
  /-- another client makes a request that the fake serves -/
  | client (call : Call)
  /-- another writer appends to the log -/
  | event (event : Event)

/-- What the handler pushed, once it is done. -/
def Phase.pushed : Phase → Option (List Text)
  | .done pushed => some pushed
  | _ => none

/-- What the handler pulled, where it goes on to our log. -/
def Phase.pulled : Phase → Option (List Text)
  | .listing raw => some raw
  | _ => none

theorem Phase.pushed_eq_some {phase : Phase} {pushed : List Text} :
    phase.pushed = some pushed ↔ phase = .done pushed := by
  cases phase <;> simp [Phase.pushed]

theorem Phase.pulled_eq_some {phase : Phase} {raw : List Text} :
    phase.pulled = some raw ↔ phase = .listing raw := by
  cases phase <;> simp [Phase.pulled]

section Handler

variable {ν φ : Type} (U : UnicodeData) (P : PhoneNumbers ν) (py : Python φ) (limit : Nat)
  (N : Numbers φ)

/-- What `blocked_numbers` makes of a page, and then `handler` of the list. -/
def Phase.page (page : Nat) (raw : List Str) : Except Failure (Nat × List Str) → Phase
  | .error _ => .failed
  | .ok (count, more) =>
      if count < 200 then .listing ((raw ++ more).map Str.shown)
      else .pulling (page + 1) (raw ++ more)

/-- `handler`, from the listing of the log to the loop of the additions. -/
def Phase.compare (raw : List Text) (log : List Event) (monotonic now : Int) : Phase :=
  let store := SuppressionStore.init.refreshIfStale log monotonic
  let vendor := vendorNumbers U P raw
  let oursPhones := store.cache.keys.filter isPhone
  .adding store now (sortedDiff vendor oursPhones) (sortedDiff oursPhones vendor)

variable (rewrite : Text → Text)

/-- The next request of the handler. -/
def World.request (w : World) : Option World :=
  match w.phase with
  | .pulling page raw =>
      match handle py limit w.vendor rewrite (.blockedList 200 page) with
      | none => some { w with phase := .failed }
      | some (response, vendor) =>
          some { w with vendor, phase := .page page raw (readPage py limit response) }
  | .adding _ _ [] pushed =>
      match blockRequest U pushed with
      | none => some { w with phase := .done pushed }
      | some numbers =>
          match handle py limit w.vendor rewrite
              (.block (Json.dumps py.floats (blockBody numbers))) with
          | none => some { w with phase := .failed }
          | some (response, vendor) =>
              match blockTaken py limit N response with
              | .ok _ => some { w with vendor, phase := .done pushed }
              | .error _ => some { w with vendor, phase := .failed }
  | _ => none

def World.step (w : World) : Label → Option World
  | .request => w.request U py limit N rewrite
  | .list listed monotonic now =>
      match w.phase with
      | .listing raw =>
          some { w with
            phase := if listed then .compare U P raw w.log monotonic now else .failed }
      | _ => none
  | .put put eventId =>
      match w.phase with
      | .adding store now (number :: numbers) pushed =>
          match store.addSuppression U P w.log put number addReason addSource
              ⟨now, some 0⟩ eventId with
          | (log, none) => some { w with log, phase := .failed }
          | (log, some store) => some { w with log, phase := .adding store now numbers pushed }
      | _ => none
  | .client call =>
      (handle py limit w.vendor rewrite call).map fun answer => { w with vendor := answer.2 }
  | .event event => some { w with log := w.log ++ [event] }

def nightly : Machine World Label := ⟨World.step U P py limit N rewrite⟩

end Handler

/-- The vendor, with an opt-out of its own. -/
def sampleVendor : FakeTextTorrent := ⟨[], ["+16502530303".toList], .empty, 1000, 5000⟩

/-- Another client blocks a number. -/
def otherBlock : Label := .client (.block "\x7b\"numbers\": [\"6502530305\"]\x7d".toList)

/-- Another client and another writer come between the steps of the handler. -/
def busyDay : List Label :=
  [.request, otherBlock, .list true 0 0] ++ (optOut "+16502530306".toList).map .event ++
    [.put .stored "1f".toList, .request]

section Run

variable {ν φ : Type} {U : UnicodeData} {P : PhoneNumbers ν} {py : Python φ} {limit : Nat}
  {N : Numbers φ} {rewrite : Text → Text} {v v' : FakeTextTorrent} {response : HttpResponse}

/-! ## The pull -/

/-- A page that could be read is the one of the list as it is; a rejected request raises. -/
theorem page_read {page count : Nat} {more : List Str} (hpage : 1 ≤ page)
    (hanswer : handle py limit v rewrite (.blockedList 200 page) = some (response, v'))
    (hread : readPage py limit response = .ok (count, more)) :
    v' = v ∧ count = ((v.optOuts.drop ((page - 1) * 200)).take 200).length ∧
      more = ((v.optOuts.drop ((page - 1) * 200)).take 200).map Str.ofText := by
  unfold handle at hanswer
  split at hanswer
  · cases hanswer
    obtain ⟨entries, hentries, -⟩ := bind_eq_ok.mp hread
    obtain ⟨envelope, henvelope, -⟩ := bind_eq_ok.mp hentries
    exact absurd henvelope request_html
  · obtain ⟨answer, hlist, hsame⟩ := Option.map_eq_some_iff.mp hanswer
    cases hsame
    have hentries : pageEntries v 200 page = (v.optOuts.drop ((page - 1) * 200)).take 200 :=
      if_neg (by omega)
    rw [readPage_blockedList hlist, hentries] at hread
    cases hread
    exact ⟨rfl, rfl, rfl⟩

/-- The pages before are those of the list, which only grows. -/
def Pulled (v : FakeTextTorrent) (page : Nat) (raw : List Str) : Prop :=
  1 ≤ page ∧ (page - 1) * 200 ≤ v.optOuts.length ∧
    raw = (v.optOuts.take ((page - 1) * 200)).map Str.ofText

theorem Pulled.grows {page : Nat} {raw : List Str} (h : Pulled v page raw)
    (hgrows : v.optOuts <+: v'.optOuts) : Pulled v' page raw := by
  obtain ⟨hpage, hle, hraw⟩ := h
  obtain ⟨more, hmore⟩ := hgrows
  refine ⟨hpage, ?_, ?_⟩
  · rw [← hmore, List.length_append]
    omega
  · rw [← hmore, List.take_append_of_le_length hle, hraw]

/-- A full page is added to those before; a short one completes the list. -/
theorem Pulled.page {page count : Nat} {raw more : List Str} (h : Pulled v page raw)
    (hcount : count = ((v.optOuts.drop ((page - 1) * 200)).take 200).length)
    (hmore : more = ((v.optOuts.drop ((page - 1) * 200)).take 200).map Str.ofText) :
    Phase.page page raw (.ok (count, more)) = .listing v.optOuts ∨
      Phase.page page raw (.ok (count, more)) = .pulling (page + 1) (raw ++ more) ∧
        Pulled v (page + 1) (raw ++ more) := by
  obtain ⟨hpage, hle, hraw⟩ := h
  have hjoined : raw ++ more = (v.optOuts.take ((page - 1) * 200 + 200)).map Str.ofText := by
    rw [hraw, hmore, ← List.map_append, ← List.take_add]
  rw [List.length_take, List.length_drop] at hcount
  rw [Phase.page]
  by_cases hshort : count < 200
  · have hall : v.optOuts.take ((page - 1) * 200 + 200) = v.optOuts :=
      List.take_of_length_le (by omega)
    have hshown : (raw ++ more).map Str.shown = v.optOuts := by
      rw [hjoined, hall, List.map_map]
      exact List.map_id'' Str.shown_ofText _
    rw [if_pos hshort, hshown]
    exact Or.inl rfl
  · have hnext : (page + 1 - 1) * 200 = (page - 1) * 200 + 200 := by omega
    rw [if_neg hshort]
    exact Or.inr ⟨rfl, by omega, hnext ▸ by omega, hnext ▸ hjoined⟩

/-! ## What a run has brought about -/

variable (U P) in
/-- What holds where the handler is, of a run that began with `v` and `log`. -/
def Phase.Holds (v : FakeTextTorrent) (log : List Event) (w : World) : Phase → Prop
  | .pulling page raw => Pulled w.vendor page raw
  | .listing raw => v.optOuts <+: raw ∧ raw <+: w.vendor.optOuts
  | .adding _ _ numbers pushed => ∃ raw, v.optOuts <+: raw ∧ raw <+: w.vendor.optOuts ∧
      (∀ n ∈ vendorNumbers U P raw, n ∈ identifiers w.log ∨ n ∈ numbers) ∧
      (∀ n ∈ numbers, Normal U P n) ∧
      ∀ n ∈ identifiers log, isPhone n = true → n ∈ vendorNumbers U P raw ∨ n ∈ pushed
  | .done _ => (∀ n ∈ vendorNumbers U P v.optOuts, n ∈ identifiers w.log) ∧
      ∀ n ∈ identifiers log, isPhone n = true → n ∈ vendorNumbers U P w.vendor.optOuts ∨
        "+1".toList ++ tenDigits U n ∈ w.vendor.optOuts
  | .failed => True

variable (U P) in
/-- Both lists have only grown, and the handler knows what it has read. -/
structure Holds (v : FakeTextTorrent) (log : List Event) (w : World) : Prop where
  theirs : v.optOuts <+: w.vendor.optOuts
  ours : log <+: w.log
  known : w.phase.Holds U P v log w

variable {log : List Event} {w w' : World}

theorem vendorNumbers_mono {raw raw' : List Text} (h : raw <+: raw') {n : Text}
    (hn : n ∈ vendorNumbers U P raw) : n ∈ vendorNumbers U P raw' :=
  (h.filterMap _).subset hn

theorem identifiers_mono {log log' : List Event} (h : log <+: log') {n : Text}
    (hn : n ∈ identifiers log) : n ∈ identifiers log' :=
  (h.map _).subset hn

/-- What others do on either side takes nothing away. -/
theorem Phase.Holds.grows {phase : Phase} (h : phase.Holds U P v log w)
    (hvendor : w.vendor.optOuts <+: w'.vendor.optOuts) (hlog : w.log <+: w'.log) :
    phase.Holds U P v log w' := by
  cases phase with
  | pulling page raw => exact Pulled.grows h hvendor
  | listing raw => exact ⟨h.1, h.2.trans hvendor⟩
  | adding store now numbers pushed =>
    obtain ⟨raw, hbegan, hraw, hours, hrest⟩ := h
    exact ⟨raw, hbegan, hraw.trans hvendor,
      fun n hn => (hours n hn).imp_left (identifiers_mono hlog), hrest⟩
  | done pushed =>
    exact ⟨fun n hn => identifiers_mono hlog (h.1 n hn), fun n hn hphone =>
      (h.2 n hn hphone).imp (vendorNumbers_mono hvendor) fun hin => hvendor.subset hin⟩
  | failed => trivial

theorem Holds.of_failed (h : Holds U P v log w) (hvendor : w.vendor.optOuts <+: w'.vendor.optOuts)
    (hlog : w.log <+: w'.log) (hphase : w'.phase = .failed) : Holds U P v log w' :=
  ⟨h.theirs.trans hvendor, h.ours.trans hlog, hphase ▸ trivial⟩

/-- A push that is taken leaves nothing of ours behind. -/
theorem done_holds {pushed : List Text} {store : SuppressionStore} {now : Int}
    (h : Holds U P v log w) (hphase : w.phase = .adding store now [] pushed)
    (hvendor : w'.vendor.optOuts =
      w.vendor.optOuts ++ (pushed.map (tenDigits U)).map ("+1".toList ++ ·))
    (hlog : w'.log = w.log) (hdone : w'.phase = .done pushed) : Holds U P v log w' := by
  have hknown := h.known
  rw [hphase] at hknown
  obtain ⟨raw, hbegan, hraw, hadded, -, hpushed⟩ := hknown
  have hgrows : w.vendor.optOuts <+: w'.vendor.optOuts := hvendor ▸ List.prefix_append _ _
  refine ⟨h.theirs.trans hgrows, hlog ▸ h.ours, hdone ▸ ⟨fun n hn => ?_, fun n hn hphone => ?_⟩⟩
  · rw [hlog]
    exact (hadded n (vendorNumbers_mono hbegan hn)).resolve_right List.not_mem_nil
  · refine (hpushed n hn hphone).imp (vendorNumbers_mono (hraw.trans hgrows)) fun hin => ?_
    rw [hvendor]
    exact List.mem_append_right _ (List.mem_map_of_mem (List.mem_map_of_mem hin))

theorem push_taken {numbers : List Text} {u : Unit}
    (hanswer : handle py limit v rewrite (.block (Json.dumps py.floats (blockBody numbers))) =
      some (response, v')) (htaken : blockTaken py limit N response = .ok u) :
    v'.optOuts = v.optOuts ++ numbers.map ("+1".toList ++ ·) := by
  unfold handle at hanswer
  split at hanswer
  · cases hanswer
    obtain ⟨envelope, henvelope, -⟩ := bind_eq_ok.mp htaken
    exact absurd henvelope request_html
  · rw [(block_taken (N := N) hanswer).2]

theorem request_keeps (h : Holds U P v log w)
    (hstep : w.request U py limit N rewrite = some w') : Holds U P v log w' := by
  have hknown := h.known
  unfold World.request at hstep
  cases hphase : w.phase with
  | pulling page raw =>
    rw [hphase] at hstep hknown
    simp only at hstep
    split at hstep
    · cases hstep
      exact h.of_failed (List.prefix_refl _) (List.prefix_refl _) rfl
    · rename_i response vendor hanswer
      cases hstep
      have hgrows := handle_optOuts hanswer
      cases hread : readPage py limit response with
      | error failure => exact h.of_failed hgrows (List.prefix_refl _) rfl
      | ok read =>
        obtain ⟨count, more⟩ := read
        obtain ⟨rfl, hcount, hmore⟩ := page_read hknown.1 hanswer hread
        rcases Pulled.page hknown hcount hmore with hlisting | ⟨hpulling, hpulled⟩
        · exact ⟨h.theirs, h.ours, hlisting ▸ ⟨h.theirs, List.prefix_refl _⟩⟩
        · exact ⟨h.theirs, h.ours, hpulling ▸ hpulled⟩
  | adding store now numbers pushed =>
    cases numbers with
    | cons number numbers =>
      rw [hphase] at hstep
      cases hstep
    | nil =>
      rw [hphase] at hstep
      simp only at hstep
      split at hstep
      · rename_i hnone
        cases hstep
        have hnil : pushed = [] := by
          by_contra hne
          rw [blockRequest, if_neg hne] at hnone
          cases hnone
        exact done_holds h hphase
          (by rw [hnil, List.map_nil, List.map_nil, List.append_nil]) rfl rfl
      · rename_i numbers hsome
        split at hstep
        · cases hstep
          exact h.of_failed (List.prefix_refl _) (List.prefix_refl _) rfl
        · rename_i response vendor hanswer
          split at hstep
          · rename_i htaken
            cases hstep
            have hnumbers : numbers = pushed.map (tenDigits U) := by
              rw [blockRequest] at hsome
              split at hsome
              · cases hsome
              · exact (Option.some.inj hsome).symm
            exact done_holds h hphase (hnumbers ▸ push_taken hanswer htaken) rfl rfl
          · cases hstep
            exact h.of_failed (handle_optOuts hanswer) (List.prefix_refl _) rfl
  | _ =>
    rw [hphase] at hstep
    cases hstep

theorem mem_ours {log : List Event} {monotonic : Int} {n : Text} :
    n ∈ (SuppressionStore.init.refreshIfStale log monotonic).cache.keys.filter isPhone ↔
      n ∈ identifiers log ∧ isPhone n = true := by
  have hcache := SuppressionStore.refreshIfStale_cache (SuppressionStore.init_follows log) monotonic
  rw [List.mem_filter, hcache, mem_keys_currentSet, identifiers, List.mem_map]

theorem compare_keeps (hP : P.Lawful) {raw : List Text} {monotonic now : Int}
    (h : Holds U P v log w) (hphase : w.phase = .listing raw) :
    Holds U P v log { w with phase := .compare U P raw w.log monotonic now } := by
  have hknown := h.known
  rw [hphase] at hknown
  refine ⟨h.theirs, h.ours, raw, hknown.1, hknown.2, fun n hn => ?_, fun n hn => ?_,
    fun n hn hphone => ?_⟩
  · by_cases hin : n ∈ identifiers w.log ∧ isPhone n = true
    · exact Or.inl hin.1
    · exact Or.inr (mem_sortedDiff.mpr ⟨hn, fun hours => hin (mem_ours.mp hours)⟩)
  · exact normal_of_vendor hP (mem_sortedDiff.mp hn).1
  · by_cases hin : n ∈ vendorNumbers U P raw
    · exact Or.inl hin
    · exact Or.inr (mem_sortedDiff.mpr ⟨mem_ours.mpr ⟨identifiers_mono h.ours hn, hphone⟩, hin⟩)

/-- An addition appends the number, or raises. -/
theorem put_keeps {store : SuppressionStore} {now : Int} {number : Text}
    {numbers pushed : List Text} {put : Put} {eventId : Text}
    {answer : List Event × Option SuppressionStore}
    (h : Holds U P v log w) (hphase : w.phase = .adding store now (number :: numbers) pushed)
    (hput : store.addSuppression U P w.log put number addReason addSource ⟨now, some 0⟩ eventId =
      answer) :
    Holds U P v log { w with
      log := answer.1
      phase := answer.2.elim .failed fun store => .adding store now numbers pushed } := by
  have hknown := h.known
  rw [hphase] at hknown
  obtain ⟨raw, hbegan, hraw, hadded, hnormal, hpushed⟩ := hknown
  obtain ⟨hnumber, hnumbers⟩ := List.forall_mem_cons.mp hnormal
  rw [SuppressionStore.addSuppression] at hput
  split at hput
  · cases hput
    exact ⟨h.theirs, h.ours, trivial⟩
  · rename_i e hevent
    have hid : e.identifier = number :=
      Option.some.inj ((newEvent_phone hnumber.2 hevent).symm.trans hnumber.1)
    split at hput
    · cases hput
      refine ⟨h.theirs, h.ours.trans (List.prefix_append _ _), raw, hbegan, hraw, fun n hn => ?_,
        hnumbers, hpushed⟩
      show n ∈ identifiers (w.log ++ [e]) ∨ n ∈ numbers
      rw [identifiers, List.map_append, List.mem_append]
      rcases hadded n hn with hin | hin
      · exact Or.inl (Or.inl hin)
      · rcases List.mem_cons.mp hin with rfl | hin
        · exact Or.inl (Or.inr (List.mem_singleton.mpr hid.symm))
        · exact Or.inr hin
    · cases hput
      exact ⟨h.theirs, h.ours, trivial⟩
    · cases hput
      exact ⟨h.theirs, h.ours.trans (List.prefix_append _ _), trivial⟩

theorem step_keeps (hP : P.Lawful) {label : Label} (h : Holds U P v log w)
    (hstep : (nightly U P py limit N rewrite).step w label = some w') : Holds U P v log w' := by
  change World.step U P py limit N rewrite w label = some w' at hstep
  cases label with
  | request => exact request_keeps h hstep
  | list listed monotonic now =>
    rw [World.step] at hstep
    split at hstep
    · rename_i raw hphase
      cases hstep
      cases listed with
      | true => exact compare_keeps hP h hphase
      | false => exact h.of_failed (List.prefix_refl _) (List.prefix_refl _) rfl
    · cases hstep
  | put put eventId =>
    rw [World.step] at hstep
    split at hstep
    · rename_i store now number numbers pushed hphase
      split at hstep
      · rename_i hput
        cases hstep
        exact put_keeps h hphase hput
      · rename_i hput
        cases hstep
        exact put_keeps h hphase hput
    · cases hstep
  | client call =>
    obtain ⟨answer, hanswer, rfl⟩ := Option.map_eq_some_iff.mp hstep
    have hgrows := handle_optOuts hanswer
    exact ⟨h.theirs.trans hgrows, h.ours, h.known.grows hgrows (List.prefix_refl _)⟩
  | event event =>
    cases hstep
    have hgrows : w.log <+: w.log ++ [event] := List.prefix_append _ _
    exact ⟨h.theirs, h.ours.trans hgrows, h.known.grows (List.prefix_refl _) hgrows⟩

/-- A run that comes to its end has brought to each side what the other held when it began,
whatever was asked of the fake and filed meanwhile: each number on the vendor's list that can be
read is in our log, and each phone in our log is on the vendor's list, in its own spelling or the
pushed one. -/
theorem nightly_meets (hP : P.Lawful) {labels : List Label} {pushed : List Text}
    (hrun : (nightly U P py limit N rewrite).run ⟨v, log, .pulling 1 []⟩ labels = some w')
    (hdone : w'.phase = .done pushed) :
    (∀ n ∈ vendorNumbers U P v.optOuts, n ∈ identifiers w'.log) ∧
      ∀ n ∈ identifiers log, isPhone n = true → n ∈ vendorNumbers U P w'.vendor.optOuts ∨
        "+1".toList ++ tenDigits U n ∈ w'.vendor.optOuts := by
  have hstart : Holds U P v log ⟨v, log, .pulling 1 []⟩ :=
    ⟨List.prefix_refl _, List.prefix_refl _, by decide, Nat.zero_le _, rfl⟩
  have hend := (nightly U P py limit N rewrite).run_preserves
    (fun w label w' hw hstep => step_keeps hP hw hstep) hstart hrun
  have hknown := hend.known
  rw [hdone] at hknown
  exact hknown

/-- A number on either list, and one that another client blocks and another writer files after
the pull. -/
theorem nightly_meets_busy : ∃ w', (nightly .plain .worldwide .plain 1000 plainNumbers id).run
      ⟨sampleVendor, optOut "+16502530304".toList, .pulling 1 []⟩ busyDay = some w' ∧
    "+16502530303".toList ∈ identifiers w'.log ∧
    ("+16502530304".toList ∈ vendorNumbers .plain .worldwide w'.vendor.optOuts ∨
      "+1".toList ++ tenDigits .plain "+16502530304".toList ∈ w'.vendor.optOuts) := by
  have hran : (((nightly .plain .worldwide .plain 1000 plainNumbers id).run
      ⟨sampleVendor, optOut "+16502530304".toList, .pulling 1 []⟩ busyDay).bind
        fun w => w.phase.pushed).isSome = true := by decide +kernel
  have htheirs : "+16502530303".toList ∈ vendorNumbers .plain .worldwide sampleVendor.optOuts := by
    decide +kernel
  have hours : "+16502530304".toList ∈ identifiers (optOut "+16502530304".toList) ∧
      isPhone "+16502530304".toList = true := by decide +kernel
  obtain ⟨pushed, hpushed⟩ := Option.isSome_iff_exists.mp hran
  obtain ⟨w', hw', hdone⟩ := Option.bind_eq_some_iff.mp hpushed
  have hmeets := nightly_meets PhoneNumbers.worldwide_lawful hw' (Phase.pushed_eq_some.mp hdone)
  exact ⟨w', hw', hmeets.1 _ htheirs, hmeets.2 _ hours.1 hours.2⟩

/-! ## The pull is a snapshot -/

variable (U P py limit N rewrite) in
/-- What the labels seen so far say of the pull. -/
def Phase.Seen (start : World) (seen : List Label) (w : World) : Phase → Prop
  | .pulling page raw => Pulled w.vendor page raw
  | .listing raw => ∃ before after u, seen = before ++ .request :: after ∧
      (nightly U P py limit N rewrite).run start before = some u ∧ raw = u.vendor.optOuts
  | _ => True

/-- Others leave the phase, and what is known of the pull. -/
theorem Phase.Seen.others {start : World} {seen : List Label} {label : Label} {phase : Phase}
    (h : phase.Seen U P py limit N rewrite start seen w)
    (hvendor : w.vendor.optOuts <+: w'.vendor.optOuts) :
    phase.Seen U P py limit N rewrite start (seen ++ [label]) w' := by
  cases phase with
  | pulling page raw => exact Pulled.grows h hvendor
  | listing raw =>
    obtain ⟨before, after, u, hseen, hrun, hraw⟩ := h
    refine ⟨before, after ++ [label], u, ?_, hrun, hraw⟩
    rw [hseen, List.append_assoc, List.cons_append]
  | _ => trivial

/-- The handler comes from a page to the listing, and never back. -/
theorem step_seen {start : World} {seen : List Label} {label : Label}
    (hrun : (nightly U P py limit N rewrite).run start seen = some w)
    (h : w.phase.Seen U P py limit N rewrite start seen w)
    (hstep : (nightly U P py limit N rewrite).step w label = some w') :
    w'.phase.Seen U P py limit N rewrite start (seen ++ [label]) w' := by
  change World.step U P py limit N rewrite w label = some w' at hstep
  cases label with
  | request =>
    change w.request U py limit N rewrite = some w' at hstep
    unfold World.request at hstep
    split at hstep
    · rename_i page raw hphase
      rw [hphase] at h
      split at hstep
      · cases hstep
        trivial
      · rename_i response vendor hanswer
        cases hstep
        cases hread : readPage py limit response with
        | error failure => trivial
        | ok read =>
          obtain ⟨count, more⟩ := read
          obtain ⟨rfl, hcount, hmore⟩ := page_read h.1 hanswer hread
          rcases Pulled.page h hcount hmore with hlisting | ⟨hpulling, hpulled⟩
          · exact hlisting ▸ ⟨seen, [], w, rfl, hrun, rfl⟩
          · exact hpulling ▸ hpulled
    · split at hstep
      · cases hstep
        trivial
      · split at hstep
        · cases hstep
          trivial
        · split at hstep
          · cases hstep
            trivial
          · cases hstep
            trivial
    · cases hstep
  | list listed monotonic now =>
    rw [World.step] at hstep
    split at hstep
    · cases hstep
      cases listed with
      | true => trivial
      | false => trivial
    · cases hstep
  | put put eventId =>
    rw [World.step] at hstep
    split at hstep
    · split at hstep
      · cases hstep
        trivial
      · cases hstep
        trivial
    · cases hstep
  | client call =>
    obtain ⟨answer, hanswer, rfl⟩ := Option.map_eq_some_iff.mp hstep
    exact h.others (handle_optOuts hanswer)
  | event event =>
    cases hstep
    exact h.others (List.prefix_refl _)

/-- Page by page, with others adding to the end of the list between the pages, the pull returns
the list as it was at one of the requests. -/
theorem pulled_snapshot {labels : List Label} {raw : List Text}
    (hrun : (nightly U P py limit N rewrite).run ⟨v, log, .pulling 1 []⟩ labels = some w')
    (hphase : w'.phase = .listing raw) :
    ∃ before after u, labels = before ++ .request :: after ∧
      (nightly U P py limit N rewrite).run ⟨v, log, .pulling 1 []⟩ before = some u ∧
      raw = u.vendor.optOuts := by
  have hstart : (nightly U P py limit N rewrite).run ⟨v, log, .pulling 1 []⟩ [] =
      some ⟨v, log, .pulling 1 []⟩ ∧ Phase.Seen U P py limit N rewrite
        ⟨v, log, .pulling 1 []⟩ [] ⟨v, log, .pulling 1 []⟩ (.pulling 1 []) :=
    ⟨rfl, by decide, Nat.zero_le _, rfl⟩
  have hend := (nightly U P py limit N rewrite).run_history
    (Q := fun seen w => (nightly U P py limit N rewrite).run ⟨v, log, .pulling 1 []⟩ seen = some w ∧
      w.phase.Seen U P py limit N rewrite ⟨v, log, .pulling 1 []⟩ seen w)
    (fun seen w label w' hw (_ : True) hstep => ⟨(Machine.run_append_some _).mpr ⟨w, hw.1,
      (Machine.run_singleton _).mpr hstep⟩, step_seen hw.1 hw.2 hstep⟩)
    hstart (Machine.along_of_forall _ fun _ _ _ => trivial) hrun
  have hseen := hend.2
  rw [hphase] at hseen
  exact hseen

/-- The handler takes the page that the vendor answers with. -/
theorem request_page {page : Nat} {raw : List Str} (hready : v.rejectStatuses = [])
    (hanswers : (blockedList py limit v 200 page).isSome = true) :
    (nightly U P py limit N rewrite).step ⟨v, log, .pulling page raw⟩ .request =
      some ⟨v, log, .page page raw (.ok ((pageEntries v 200 page).length,
        (pageEntries v 200 page).map Str.ofText))⟩ := by
  obtain ⟨response, hlist⟩ := Option.isSome_iff_exists.mp hanswers
  have hanswer : handle py limit v rewrite (.blockedList 200 page) = some (response, v) := by
    rw [handle, hready]
    show (blockedList py limit v 200 page).map (·, v) = _
    rw [hlist, Option.map_some]
  show World.request U py limit N rewrite ⟨v, log, .pulling page raw⟩ = _
  simp only [World.request, hanswer, readPage_blockedList hlist]

/-- A vendor whose first page is full. -/
def longVendor : FakeTextTorrent :=
  { sampleVendor with optOuts := List.replicate 200 "+16502530303".toList }

def firstPageTaken : World :=
  ⟨longVendor, [], .page 1 [] (.ok ((pageEntries longVendor 200 1).length,
    (pageEntries longVendor 200 1).map Str.ofText))⟩

/-- Between the two pages another client blocks a number, and it is on the second. -/
theorem pulled_snapshot_grown : ∃ w' raw,
    (nightly .plain .worldwide .plain 1000 plainNumbers id).run
        ⟨longVendor, [], .pulling 1 []⟩ [.request, otherBlock, .request] = some w' ∧
      w'.phase = .listing raw ∧ ∃ before after u, [.request, otherBlock, .request] = before ++
        .request :: after ∧ (nightly .plain .worldwide .plain 1000 plainNumbers id).run
          ⟨longVendor, [], .pulling 1 []⟩ before = some u ∧ raw = u.vendor.optOuts := by
  have hfirst : (nightly .plain .worldwide .plain 1000 plainNumbers id).step
      ⟨longVendor, [], .pulling 1 []⟩ .request = some firstPageTaken :=
    request_page rfl (by decide +kernel)
  have hran : (((nightly .plain .worldwide .plain 1000 plainNumbers id).run firstPageTaken
      [otherBlock, .request]).bind fun w => w.phase.pulled).isSome = true := by decide +kernel
  obtain ⟨raw, hraw⟩ := Option.isSome_iff_exists.mp hran
  obtain ⟨w', hrest, hpulled⟩ := Option.bind_eq_some_iff.mp hraw
  have hw' := (Machine.run_cons_some _).mpr ⟨_, hfirst, hrest⟩
  have hphase := Phase.pulled_eq_some.mp hpulled
  exact ⟨w', raw, hw', hphase, pulled_snapshot hw' hphase⟩

/-! ## The run on its own -/

/-- The puts of a run, as its environment answers them. -/
def puts (env : Env) (i n : Nat) : List Label :=
  (List.range' i n).map fun i => .put (env.put i) (env.eventId i)

theorem puts_addAll {env : Env} {pushed : List Text} {log' : List Event}
    {store store' : SuppressionStore} (numbers : List Text) (i : Nat)
    (h : addAll U P env i store log numbers = (log', some store')) :
    (nightly U P py limit N rewrite).run ⟨v, log, .adding store env.now numbers pushed⟩
      (puts env i numbers.length) = some ⟨v, log', .adding store' env.now [] pushed⟩ := by
  induction numbers generalizing i store log with
  | nil =>
    cases h
    rfl
  | cons number numbers ih =>
    rw [addAll] at h
    split at h
    · cases h
    · rename_i hput
      rw [puts, List.length_cons, List.range'_succ, List.map_cons, Machine.run_cons_some]
      refine ⟨_, ?_, ih (i + 1) h⟩
      simp only [nightly, World.step, hput]

/-- Without other writers, the handler does what `reconcile` says, one put at a time. -/
theorem reconcile_steps {env : Env} {raw pushed : List Text} (hpull : env.pull.numbers = some raw)
    (hpushed : (reconcile U P env log).pushed = some pushed) :
    ∃ store, (nightly U P py limit N rewrite).run ⟨v, log, .listing raw⟩
      (.list env.listed env.monotonic env.now ::
        puts env 0 (additions U P env log raw).length) =
          some ⟨v, (reconcile U P env log).log, .adding store env.now [] pushed⟩ := by
  unfold reconcile at hpushed ⊢
  rw [hpull] at hpushed ⊢
  cases hlisted : env.listed with
  | false =>
    rw [hlisted] at hpushed
    cases hpushed
  | true =>
    simp only [hlisted, Bool.not_true, Bool.false_eq_true, if_false] at hpushed ⊢
    cases hadd : addAll U P env 0 (SuppressionStore.init.refreshIfStale log env.monotonic) log
      (additions U P env log raw) with
    | mk log' store =>
      have hadd' := hadd
      rw [additions] at hadd'
      rw [hadd'] at hpushed ⊢
      cases store with
      | none => cases hpushed
      | some store =>
        refine ⟨store, (Machine.run_cons_some _).mpr ⟨_, rfl, ?_⟩⟩
        simp only at hpushed ⊢
        split at hpushed
        · rename_i hreport
          cases hpushed
          rw [if_pos hreport]
          exact puts_addAll _ 0 hadd
        · rename_i hreport
          cases hpushed
          rw [if_neg hreport]
          exact puts_addAll _ 0 hadd

end Run

end Outreach.TextTorrent.Nightly

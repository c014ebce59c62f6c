import Outreach.TextTorrent.Reconcile
import Outreach.Library.Python

/-!
# The pull of the blocked list: `texttorrent/client.py`

A request raises on some statuses and on a body that is no JSON. Any other answer is
read as a page, and one without entries is a page that is short. The loop may go on for
ever, so it has fuel.
-/

namespace Outreach.TextTorrent.Client

open Outreach.Library

set_option autoImplicit false

structure HttpResponse where
  status : Nat
  /-- `response.body.decode(errors="replace")` -/
  raw : Text

/-- A `TextTorrentApiError`, or another exception. -/
inductive Failure where
  | api (status : Nat) (detail : Text)
  | other (error : PyError)

/-- The statuses on which `_request` raises. -/
def refused (status : Nat) : Bool := [401, 403, 429].contains status || 500 ≤ status

section Pull

variable {φ : Type} (py : Python φ) (limit : Nat)

/-- `_request` -/
def request (response : HttpResponse) : Except Failure (JsonValue φ) :=
  if refused response.status then .error (.api response.status response.raw)
  else
    match Json.loads py.floats limit (Str.ofText response.raw) with
    | .ok envelope => .ok envelope
    | .error .recursion => .error (.other recursionError)
    | .error _ => .error (.api response.status response.raw)

/-- `value or missing` -/
def orElse (value missing : JsonValue φ) : JsonValue φ := if py.truthy value then value else missing

/-- The entries of a page, which `for` and `len` see alike. -/
def entriesOf (envelope : JsonValue φ) : Except PyError (List (JsonValue φ)) := do
  let data ← envelope.get "data"
  let blocked ← (orElse py data (.object [])).get "blocked_list"
  let entries ← (orElse py blocked (.object [])).get "data"
  (orElse py entries (.array [])).iterate

/-- `str(entry["number"]) for entry in entries if isinstance(entry, dict)` -/
def numbersIn : List (JsonValue φ) → Except PyError (List Str)
  | [] => .ok []
  | .object members :: entries => do
      let number ← JsonValue.item "number" (.object members)
      let text ← py.str number
      let numbers ← numbersIn entries
      return text :: numbers
  | _ :: entries => numbersIn entries

def pageOf (response : HttpResponse) : Except Failure (List (JsonValue φ)) := do
  let envelope ← request py limit response
  (entriesOf py envelope).mapError .other

/-- How many entries a page has, and their numbers. -/
def readPage (response : HttpResponse) : Except Failure (Nat × List Str) := do
  let entries ← pageOf py limit response
  let numbers ← (numbersIn py entries).mapError .other
  return (entries.length, numbers)

/-- The loop of `blocked_numbers`, over the answers to its requests by page; `none` while it
runs. -/
def pull (pageSize : Nat) (answers : Nat → HttpResponse) :
    Nat → Nat → List Str → Option (Except Failure (List Str))
  | 0, _, _ => none
  | fuel + 1, page, numbers =>
      match readPage py limit (answers page) with
      | .error e => some (.error e)
      | .ok (count, more) =>
          if count < pageSize then some (.ok (numbers ++ more))
          else pull pageSize answers fuel (page + 1) (numbers ++ more)

/-- `blocked_numbers` -/
def blockedNumbers (pageSize : Nat) (answers : Nat → HttpResponse) (fuel : Nat) :
    Option (Except Failure (List Str)) := pull py limit pageSize answers fuel 1 []

/-! ## The vendor -/

/-- An entry of the vendor's list. -/
structure BlockedRecord (φ : Type) where
  members : Members φ
  number : Str
  holds : members.lookup (Str.ofString "number") = some (.string number)

/-- The entries of a page. -/
def pageSlice (list : List (BlockedRecord φ)) (pageSize page : Nat) : List (BlockedRecord φ) :=
  (list.drop (pageSize * (page - 1))).take pageSize

/-- A success envelope with these entries. -/
structure Serves (entries : List (BlockedRecord φ)) (response : HttpResponse) : Prop where
  status : response.status < 400
  envelope : ∃ envelope data blocked : Members φ,
    Json.loads py.floats limit (Str.ofText response.raw) = .ok (.object envelope) ∧
      py.truthy (envelope.get "success" .null) = true ∧
      envelope.lookup (Str.ofString "data") = some (.object data) ∧
      data.lookup (Str.ofString "blocked_list") = some (.object blocked) ∧
      blocked.lookup (Str.ofString "data") = some (.array (entries.map fun e => .object e.members))

/-- An error status, or an envelope that tells of no success. -/
def Fails (response : HttpResponse) : Prop :=
  400 ≤ response.status ∨ ∃ envelope : Members φ,
    Json.loads py.floats limit (Str.ofText response.raw) = .ok (.object envelope) ∧
      py.truthy (envelope.get "success" .null) = false

/-- The server honours `limit` and `page`, where it does not fail. -/
def Honours (pageSize : Nat) (list : List (BlockedRecord φ)) (answers : Nat → HttpResponse) :
    Prop :=
  ∀ page, 1 ≤ page → Serves py limit (pageSlice list pageSize page) (answers page) ∨
    Fails py limit (answers page)

def Raises (response : HttpResponse) : Prop := ∃ e, readPage py limit response = .error e

/-- The page is read, and does not end the loop. -/
def Full (pageSize : Nat) (response : HttpResponse) : Prop :=
  ∃ page, readPage py limit response = .ok page ∧ pageSize ≤ page.1

/-- The loop comes to the page. -/
def Asked (pageSize : Nat) (answers : Nat → HttpResponse) (page : Nat) : Prop :=
  1 ≤ page ∧ ∀ k, 1 ≤ k → k < page → Full py limit pageSize (answers k)

/-- The pull ends: with the whole list, all of it from success envelopes, or with an
exception if a page fails. -/
def CompleteOrFails (pageSize : Nat) (list : List (BlockedRecord φ))
    (answers : Nat → HttpResponse) : Prop :=
  ∃ fuel out, blockedNumbers py limit pageSize answers fuel = some out ∧
    (∀ numbers, out = .ok numbers → numbers = list.map BlockedRecord.number ∧
      ∀ page, Asked py limit pageSize answers page →
        Serves py limit (pageSlice list pageSize page) (answers page)) ∧
    ((∃ page, Asked py limit pageSize answers page ∧ Fails py limit (answers page)) →
      ∃ e, out = .error e)

/-- The first page that fails, among those that hold the list, raises; or full pages lead from
it to one that does. -/
def Caught (pageSize : Nat) (list : List (BlockedRecord φ)) (answers : Nat → HttpResponse) : Prop :=
  ∀ page, 1 ≤ page → page ≤ list.length / pageSize + 1 → Fails py limit (answers page) →
    (∀ k, 1 ≤ k → k < page → ¬ Fails py limit (answers k)) →
      ∃ q, page ≤ q ∧ Raises py limit (answers q) ∧
        ∀ k, page ≤ k → k < q → Full py limit pageSize (answers k)

end Pull

section Pages

variable {φ : Type} {py : Python φ} {limit : Nat} {entries : List (BlockedRecord φ)}
  {response : HttpResponse}

theorem numbersIn_records (entries : List (BlockedRecord φ)) :
    numbersIn py (entries.map fun e => .object e.members) =
      .ok (entries.map BlockedRecord.number) := by
  induction entries with
  | nil => rfl
  | cons e entries ih =>
    have hitem : JsonValue.item "number" (.object e.members) = .ok (.string e.number) := by
      rw [JsonValue.item, e.holds]
    rw [List.map_cons, List.map_cons, numbersIn, hitem, ih]
    rfl

theorem get_of_lookup {members : Members φ} {key : String} {value : JsonValue φ}
    (h : members.lookup (Str.ofString key) = some value) :
    (JsonValue.object members).get key = .ok value := by
  rw [JsonValue.get, Members.get, h]
  rfl

theorem orElse_object {members : Members φ} {key : String} {value missing : JsonValue φ}
    (h : members.lookup (Str.ofString key) = some value) :
    orElse py (.object members) missing = .object members := by
  cases members with
  | nil => exact absurd h.symm (Option.some_ne_none value)
  | cons m members => rfl

theorem readPage_serves (h : Serves py limit entries response) :
    readPage py limit response = .ok (entries.length, entries.map BlockedRecord.number) := by
  obtain ⟨hstatus, envelope, data, blocked, hloads, -, hdata, hblocked, hentries⟩ := h
  have hrefused : refused response.status = false := by
    simp only [refused, List.contains_cons, List.contains_nil, Bool.or_false,
      Bool.or_eq_false_iff, beq_eq_false_iff_ne, decide_eq_false_iff_not]
    omega
  have hrequest : request py limit response = .ok (.object envelope) := by
    rw [request, hrefused, hloads]
    rfl
  have hitems : (orElse py (.array (entries.map fun e => JsonValue.object e.members))
      (.array [])).iterate = .ok (entries.map fun e => JsonValue.object e.members) := by
    cases entries <;> rfl
  have hpage : entriesOf py (.object envelope) =
      .ok (entries.map fun e => JsonValue.object e.members) := by
    refine bind_eq_ok.mpr ⟨_, get_of_lookup hdata, ?_⟩
    rw [orElse_object hblocked]
    refine bind_eq_ok.mpr ⟨_, get_of_lookup hblocked, ?_⟩
    rw [orElse_object hentries]
    exact bind_eq_ok.mpr ⟨_, get_of_lookup hentries, hitems⟩
  rw [readPage, pageOf, hrequest]
  show ((entriesOf py (.object envelope)).mapError Failure.other >>= _) = _
  rw [hpage]
  show ((numbersIn py (entries.map fun e => JsonValue.object e.members)).mapError
    Failure.other >>= _) = _
  rw [numbersIn_records]
  show Except.ok (_, _) = _
  rw [List.length_map]

theorem Serves.not_fails (h : Serves py limit entries response) : ¬ Fails py limit response := by
  obtain ⟨hstatus, envelope, data, blocked, hloads, hsuccess, -⟩ := h
  intro hfails
  rcases hfails with herror | ⟨envelope', hloads', hfalse⟩
  · omega
  · obtain rfl : envelope = envelope' :=
      JsonValue.object.inj (Except.ok.inj (hloads.symm.trans hloads'))
    exact absurd (hsuccess.symm.trans hfalse) Bool.noConfusion

/-- A failure that carries no data is read as an empty page, unless its status is one of those
that raise. -/
theorem readPage_failure {envelope : Members φ} (hstatus : refused response.status = false)
    (hloads : Json.loads py.floats limit (Str.ofText response.raw) = .ok (.object envelope))
    (hdata : py.truthy (envelope.get "data" .null) = false) :
    readPage py limit response = .ok (0, []) := by
  have hrequest : request py limit response = .ok (.object envelope) := by
    rw [request, hstatus, hloads]
    rfl
  have hpage : entriesOf py (.object envelope) = .ok [] := by
    refine bind_eq_ok.mpr ⟨_, rfl, ?_⟩
    rw [orElse, hdata]
    rfl
  rw [readPage, pageOf, hrequest]
  show ((entriesOf py (.object envelope)).mapError Failure.other >>= _) = _
  rw [hpage]
  rfl

end Pages

section Loop

variable {φ : Type} {py : Python φ} {limit pageSize : Nat} {answers : Nat → HttpResponse}

/-- A full page is taken, and the next one asked for. -/
theorem pull_full {page : Nat} {read : Nat × List Str} (fuel : Nat) (numbers : List Str)
    (hread : readPage py limit (answers page) = .ok read) (hfull : pageSize ≤ read.1) :
    pull py limit pageSize answers (fuel + 1) page numbers =
      pull py limit pageSize answers fuel (page + 1) (numbers ++ read.2) := by
  rw [pull, hread]
  exact if_neg (Nat.not_lt.mpr hfull)

/-- Where a pull ends: the page there raises, or is short. -/
theorem pull_ends {fuel page : Nat} {numbers : List Str} {out : Except Failure (List Str)}
    (h : pull py limit pageSize answers fuel page numbers = some out) :
    ∃ q, page ≤ q ∧ (∀ k, page ≤ k → k < q → Full py limit pageSize (answers k)) ∧
      ((∃ e, out = .error e ∧ readPage py limit (answers q) = .error e) ∨
        ∃ read, (∃ all, out = .ok all) ∧ readPage py limit (answers q) = .ok read ∧
          read.1 < pageSize) := by
  induction fuel generalizing page numbers with
  | zero => exact absurd h.symm (Option.some_ne_none out)
  | succ fuel ih =>
    have hnone : ∀ k, page ≤ k → k < page → Full py limit pageSize (answers k) :=
      fun k hle hlt => absurd hlt (Nat.not_lt.mpr hle)
    cases hread : readPage py limit (answers page) with
    | error e =>
      rw [pull, hread] at h
      exact ⟨page, le_rfl, hnone, Or.inl ⟨e, (Option.some.inj h).symm, hread⟩⟩
    | ok read =>
      by_cases hshort : read.1 < pageSize
      · rw [pull, hread] at h
        have hout := Option.some.inj ((if_pos hshort).symm.trans h)
        exact ⟨page, le_rfl, hnone, Or.inr ⟨read, ⟨_, hout.symm⟩, hread, hshort⟩⟩
      · have hfull : pageSize ≤ read.1 := Nat.le_of_not_lt hshort
        rw [pull_full fuel numbers hread hfull] at h
        obtain ⟨q, hle, hbefore, hend⟩ := ih h
        refine ⟨q, by omega, fun k hk hlt => ?_, hend⟩
        rcases Nat.eq_or_lt_of_le hk with rfl | hnext
        · exact ⟨read, hread, hfull⟩
        · exact hbefore k hnext hlt

/-- Full pages lead to a page that raises. -/
theorem pull_raises {page q : Nat} {e : Failure} (numbers : List Str) (hle : page ≤ q)
    (hbefore : ∀ k, page ≤ k → k < q → Full py limit pageSize (answers k))
    (hraises : readPage py limit (answers q) = .error e) :
    ∃ fuel, pull py limit pageSize answers fuel page numbers = some (.error e) := by
  obtain ⟨d, rfl⟩ := Nat.exists_eq_add_of_le hle
  induction d generalizing page numbers with
  | zero =>
    refine ⟨1, ?_⟩
    rw [Nat.add_zero] at hraises
    rw [pull, hraises]
  | succ d ih =>
    obtain ⟨read, hread, hfull⟩ := hbefore page le_rfl (by omega)
    have hnext : page + (d + 1) = page + 1 + d := by omega
    rw [hnext] at hraises
    obtain ⟨fuel, hrun⟩ := ih (numbers ++ read.2) (by omega)
      (fun k hk hlt => hbefore k (by omega) (by omega)) hraises
    exact ⟨fuel + 1, (pull_full fuel numbers hread hfull).trans hrun⟩

variable {list : List (BlockedRecord φ)}

theorem length_pageSlice (page : Nat) :
    (pageSlice list pageSize (page + 1)).length =
      min pageSize (list.length - pageSize * page) := by
  rw [pageSlice, List.length_take, List.length_drop, Nat.add_sub_cancel]

/-- All pages but the last one are full. -/
theorem full_of_serves {page : Nat} (hpage : page < list.length / pageSize)
    (h : Serves py limit (pageSlice list pageSize (page + 1)) (answers (page + 1))) :
    Full py limit pageSize (answers (page + 1)) := by
  have hend : pageSize * (page + 1) ≤ list.length :=
    (Nat.mul_le_mul_left pageSize hpage).trans (Nat.mul_div_le _ _)
  rw [Nat.mul_succ] at hend
  refine ⟨_, readPage_serves h, ?_⟩
  show pageSize ≤ (pageSlice list pageSize (page + 1)).length
  rw [length_pageSlice]
  omega

theorem short_last (hsize : 1 ≤ pageSize) :
    (pageSlice list pageSize (list.length / pageSize + 1)).length < pageSize := by
  have hdiv := Nat.div_add_mod list.length pageSize
  have hmod := Nat.mod_lt list.length hsize
  rw [length_pageSlice]
  omega

/-- The pages of a server that does not fail, from any of them on. -/
theorem pull_served (hsize : 1 ≤ pageSize) (d page : Nat) (numbers : List Str)
    (hlast : page + d = list.length / pageSize)
    (hserves : ∀ k, page ≤ k → k ≤ list.length / pageSize →
      Serves py limit (pageSlice list pageSize (k + 1)) (answers (k + 1))) :
    ∃ fuel, pull py limit pageSize answers fuel (page + 1) numbers =
      some (.ok (numbers ++ (list.drop (pageSize * page)).map BlockedRecord.number)) := by
  have hhere := hserves page le_rfl (by omega)
  have hread := readPage_serves hhere
  induction d generalizing page numbers with
  | zero =>
    rw [Nat.add_zero] at hlast
    have hshort : (pageSlice list pageSize (page + 1)).length < pageSize :=
      hlast ▸ short_last hsize
    have hall : pageSlice list pageSize (page + 1) = list.drop (pageSize * page) := by
      refine List.take_of_length_le ?_
      rw [length_pageSlice] at hshort
      rw [List.length_drop, Nat.add_sub_cancel]
      omega
    refine ⟨1, ?_⟩
    rw [pull, hread, ← hall]
    exact if_pos hshort
  | succ d ih =>
    have hfull := full_of_serves (by omega) hhere
    have hnext := hserves (page + 1) (by omega) (by omega)
    obtain ⟨fuel, hrun⟩ := ih (page + 1)
      (numbers ++ (pageSlice list pageSize (page + 1)).map BlockedRecord.number) (by omega)
      (fun k hk hle => hserves k (by omega) hle) hnext (readPage_serves hnext)
    obtain ⟨read, hread', hcount⟩ := hfull
    obtain rfl := Except.ok.inj (hread.symm.trans hread')
    refine ⟨fuel + 1, ?_⟩
    rw [pull_full fuel numbers hread hcount, hrun, List.append_assoc, ← List.map_append,
      pageSlice, Nat.add_sub_cancel, Nat.mul_succ, ← List.drop_drop, List.take_append_drop]

/-- Up to the first failure all pages before the end of the list are full. -/
theorem full_before (hserver : Honours py limit pageSize list answers) {page : Nat}
    (hpage : page ≤ list.length / pageSize + 1)
    (hnone : ∀ k, 1 ≤ k → k < page → ¬ Fails py limit (answers k)) :
    ∀ k, 1 ≤ k → k < page → Full py limit pageSize (answers k) := by
  intro k hk hlt
  obtain ⟨k, rfl⟩ := Nat.exists_eq_add_of_le' hk
  have hserves := (hserver (k + 1) hk).resolve_right (hnone (k + 1) hk hlt)
  exact full_of_serves (by omega) hserves

/-- The page at which the pull ends is not before the first failure, and raises. -/
theorem caught_of_completeOrFails (hserver : Honours py limit pageSize list answers)
    (h : CompleteOrFails py limit pageSize list answers) : Caught py limit pageSize list answers := by
  intro page hpage hle hfails hnone
  obtain ⟨fuel, out, hrun, -, herror⟩ := h
  obtain ⟨q, hq, hbefore, hend⟩ := pull_ends hrun
  have hfull := full_before hserver hle hnone
  have hreach : page ≤ q := by
    by_contra hlt
    rw [not_le] at hlt
    obtain ⟨read, hread, hlong⟩ := hfull q hq hlt
    rcases hend with ⟨e, -, hraises⟩ | ⟨read', -, hread', hshort⟩
    · cases hread.symm.trans hraises
    · obtain rfl := Except.ok.inj (hread.symm.trans hread')
      omega
  obtain ⟨e, hout⟩ := herror ⟨page, ⟨hpage, hfull⟩, hfails⟩
  refine ⟨q, hreach, ?_, fun k hk hlt => hbefore k (by omega) hlt⟩
  rcases hend with ⟨e', -, hraises⟩ | ⟨-, ⟨all, hall⟩, -⟩
  · exact ⟨e', hraises⟩
  · cases hall.symm.trans hout

/-- A first failure that is caught leads to an exception. -/
theorem pull_caught (hserver : Honours py limit pageSize list answers) {page : Nat}
    (hpage : 1 ≤ page) (hle : page ≤ list.length / pageSize + 1)
    (hnone : ∀ k, 1 ≤ k → k < page → ¬ Fails py limit (answers k))
    (hcaught : ∃ q, page ≤ q ∧ Raises py limit (answers q) ∧
      ∀ k, page ≤ k → k < q → Full py limit pageSize (answers k)) :
    CompleteOrFails py limit pageSize list answers := by
  obtain ⟨q, hq, ⟨e, hraises⟩, hbetween⟩ := hcaught
  have hbefore : ∀ k, 1 ≤ k → k < q → Full py limit pageSize (answers k) := by
    intro k hk hlt
    rcases Nat.lt_or_ge k page with hearly | hlate
    · exact full_before hserver hle hnone k hk hearly
    · exact hbetween k hlate hlt
  obtain ⟨fuel, hrun⟩ := pull_raises [] (hpage.trans hq) hbefore hraises
  refine ⟨fuel, _, hrun, fun numbers hok => ?_, fun _ => ⟨e, rfl⟩⟩
  cases hok

/-- Where the pages that hold the list do not fail, no other page is asked for, and the list is
complete. -/
theorem pull_complete (hsize : 1 ≤ pageSize) (hserver : Honours py limit pageSize list answers)
    (hnone : ∀ k, 1 ≤ k → k ≤ list.length / pageSize + 1 → ¬ Fails py limit (answers k)) :
    CompleteOrFails py limit pageSize list answers := by
  have hserves : ∀ k, k ≤ list.length / pageSize →
      Serves py limit (pageSlice list pageSize (k + 1)) (answers (k + 1)) := fun k hk =>
    (hserver (k + 1) (by omega)).resolve_right (hnone (k + 1) (by omega) (by omega))
  have hlast : ∀ page, Asked py limit pageSize answers page →
      page ≤ list.length / pageSize + 1 := by
    intro page hasked
    by_contra hlt
    obtain ⟨read, hread, hfull⟩ :=
      hasked.2 (list.length / pageSize + 1) (Nat.le_add_left 1 _) (not_le.mp hlt)
    obtain rfl := Except.ok.inj ((readPage_serves (hserves _ le_rfl)).symm.trans hread)
    exact absurd (short_last hsize) (Nat.not_lt.mpr hfull)
  obtain ⟨fuel, hrun⟩ := pull_served hsize (list.length / pageSize) 0 [] (Nat.zero_add _)
    fun k _ hk => hserves k hk
  refine ⟨fuel, _, hrun, ?_, ?_⟩
  · intro numbers hok
    refine ⟨(Except.ok.inj hok).symm, fun page hasked => ?_⟩
    exact (hserver page hasked.1).resolve_right (hnone page hasked.1 (hlast page hasked))
  · intro hfailed
    obtain ⟨page, hasked, hfails⟩ := hfailed
    exact absurd hfails (hnone page hasked.1 (hlast page hasked))

/-- The pull is complete or fails exactly if the first failure is caught. -/
theorem completeOrFails_iff (hsize : 1 ≤ pageSize)
    (hserver : Honours py limit pageSize list answers) :
    CompleteOrFails py limit pageSize list answers ↔ Caught py limit pageSize list answers := by
  constructor
  · exact caught_of_completeOrFails hserver
  · intro h
    by_cases hany : ∃ page, 1 ≤ page ∧ page ≤ list.length / pageSize + 1 ∧
        Fails py limit (answers page)
    · classical
      obtain ⟨hpage, hle, hfails⟩ := Nat.find_spec hany
      have hnone : ∀ k, 1 ≤ k → k < Nat.find hany → ¬ Fails py limit (answers k) :=
        fun k hk hlt hfail => Nat.find_min hany hlt ⟨hk, by omega, hfail⟩
      exact pull_caught hserver hpage hle hnone (h _ hpage hle hfails hnone)
    · exact pull_complete hsize hserver fun k hk hle hfails => hany ⟨k, hk, hle, hfails⟩

end Loop

/-! ## The pull in the run -/

section Seen

variable {φ : Type} (py : Python φ) (limit : Nat)

/-- What a run sees of an entry. -/
def seenEntry : JsonValue φ → BlockedEntry
  | .object members => .record
      (((JsonValue.item "number" (.object members)).bind py.str).toOption.map Str.shown)
  | _ => .other

def seen (response : HttpResponse) : Option (List BlockedEntry) :=
  (pageOf py limit response).toOption.map (List.map (seenEntry py))

variable {py limit}

theorem numbersIn_object (members : Members φ) (entries : List (JsonValue φ)) :
    numbersIn py (.object members :: entries) =
      ((JsonValue.item "number" (.object members)).bind py.str).bind fun text =>
        (numbersIn py entries).map (text :: ·) := by
  rw [numbersIn]
  cases JsonValue.item "number" (.object members) with
  | error e => rfl
  | ok number =>
    show (py.str number >>= _) = (py.str number).bind _
    cases py.str number with
    | error e => rfl
    | ok text => cases numbersIn py entries <;> rfl

theorem numbersOf_seen (entries : List (JsonValue φ)) :
    numbersOf (entries.map (seenEntry py)) =
      (numbersIn py entries).toOption.map (List.map Str.shown) := by
  induction entries with
  | nil => rfl
  | cons v entries ih =>
    cases v with
    | object members =>
      rw [List.map_cons, seenEntry, numbersIn_object]
      cases (JsonValue.item "number" (.object members)).bind py.str with
      | error e => rfl
      | ok text =>
        show (numbersOf (entries.map (seenEntry py))).map _ = _
        rw [ih]
        cases numbersIn py entries <;> rfl
    | _ => exact ih

/-- What a run makes of the answers is what the client makes of them. -/
theorem pull_seen (pageSize : Nat) (answers : Nat → HttpResponse) (fuel page : Nat)
    (numbers : List Str) :
    ((pull py limit pageSize answers fuel page numbers).bind Except.toOption).map
        (List.map Str.shown) =
      (TextTorrent.blockedNumbers pageSize ((List.range' page fuel).map fun page =>
        seen py limit (answers page))).map (numbers.map Str.shown ++ ·) := by
  induction fuel generalizing page numbers with
  | zero => rfl
  | succ fuel ih =>
    rw [List.range'_succ, List.map_cons, seen]
    cases hpage : pageOf py limit (answers page) with
    | error e =>
      have hread : readPage py limit (answers page) = .error e := by
        rw [readPage, hpage]
        rfl
      rw [pull, hread]
      rfl
    | ok entries =>
      show _ = Option.map _
        (TextTorrent.blockedNumbers pageSize (some (entries.map (seenEntry py)) :: _))
      rw [TextTorrent.blockedNumbers, numbersOf_seen, List.length_map]
      cases hnumbers : numbersIn py entries with
      | error e =>
        have hread : readPage py limit (answers page) = .error (.other e) := by
          rw [readPage, hpage]
          show ((numbersIn py entries).mapError Failure.other >>= _) = _
          rw [hnumbers]
          rfl
        rw [pull, hread]
        rfl
      | ok more =>
        have hread : readPage py limit (answers page) = .ok (entries.length, more) := by
          rw [readPage, hpage]
          show ((numbersIn py entries).mapError Failure.other >>= _) = _
          rw [hnumbers]
          rfl
        by_cases hshort : entries.length < pageSize
        · rw [pull, hread]
          show (Option.bind (if entries.length < pageSize then _ else _) _).map _ =
            Option.map _ (if entries.length < pageSize then _ else _)
          rw [if_pos hshort, if_pos hshort]
          exact congrArg some (List.map_append ..)
        · rw [pull_full fuel numbers hread (Nat.le_of_not_lt hshort), ih, List.map_append]
          show _ = Option.map _ (if entries.length < pageSize then _ else _)
          rw [if_neg hshort]
          simp [Function.comp_def]

end Seen

/-- A list of one number. -/
def oneRecord : BlockedRecord Unit where
  members := [(Str.ofString "number", .string (Str.ofString "+16502530300"))]
  number := Str.ofString "+16502530300"
  holds := rfl

/-- The list is served, and what comes after it refused. -/
def servedOnce : Nat → HttpResponse
  | 1 => ⟨200, ("\x7b\"success\":true,\"data\":\x7b\"blocked_list\":\x7b\"data\":" ++
      "[\x7b\"number\":\"+16502530300\"\x7d]\x7d\x7d\x7d").toList⟩
  | _ => ⟨503, []⟩

/-- A pull that dies at its second page. -/
theorem completeOrFails_servedOnce : CompleteOrFails .plain 1000 1 [oneRecord] servedOnce := by
  have hrefused : ∀ page, page ≠ 1 → servedOnce page = ⟨503, []⟩ := by
    intro page hpage
    rw [servedOnce]
    exact hpage
  have hserves : Serves .plain 1000 [oneRecord] (servedOnce 1) :=
    ⟨by decide, _, _, _, rfl, rfl, rfl, rfl, rfl⟩
  have hserver : Honours .plain 1000 1 [oneRecord] servedOnce := by
    intro page hpage
    by_cases hfirst : page = 1
    · subst hfirst
      exact Or.inl hserves
    · rw [hrefused page hfirst]
      exact Or.inr (Or.inl (by decide))
  refine (completeOrFails_iff le_rfl hserver).mpr ?_
  intro page _ _ hfails _
  have hlate : page ≠ 1 := fun h => hserves.not_fails (h ▸ hfails)
  refine ⟨page, le_rfl, ⟨.api 503 [], ?_⟩, fun k hk hlt => absurd hlt (Nat.not_lt.mpr hk)⟩
  rw [hrefused page hlate]
  rfl

/-- The answer of a route that is not there. -/
def notFound : HttpResponse := ⟨404, "\x7b\"message\":\"Not found\"\x7d".toList⟩

/-- A status that is let through reads as the end of the list. -/
theorem notFound_ends_pull :
    Honours .plain 1000 1 [oneRecord] (fun _ => notFound) ∧
      blockedNumbers .plain 1000 1 (fun _ => notFound) 1 = some (.ok []) ∧
      ¬ CompleteOrFails .plain 1000 1 [oneRecord] fun _ => notFound := by
  have hread : readPage .plain 1000 notFound = .ok (0, []) := readPage_failure rfl rfl rfl
  have hfails : Fails .plain 1000 notFound := Or.inl (by decide)
  refine ⟨fun _ _ => Or.inr hfails, ?_, ?_⟩
  · rw [blockedNumbers, pull, hread]
    rfl
  · intro h
    obtain ⟨fuel, out, hrun, -, herror⟩ := h
    have hasked : Asked .plain 1000 1 (fun _ => notFound) 1 :=
      ⟨le_rfl, fun k hk hlt => absurd hlt (Nat.not_lt.mpr hk)⟩
    obtain ⟨e, rfl⟩ := herror ⟨1, hasked, hfails⟩
    obtain ⟨q, -, -, hend⟩ := pull_ends hrun
    rcases hend with ⟨e', -, hraises⟩ | ⟨-, ⟨all, hall⟩, -⟩
    · cases hread.symm.trans hraises
    · cases hall

end Outreach.TextTorrent.Client

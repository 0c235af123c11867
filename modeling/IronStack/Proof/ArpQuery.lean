import IronStack.Arp.Query
import IronStack.Lib.Machine
import IronStack.Lib.OrdMap

/-!
# What a blocking query returns

A query is answered by the first reply for its address on its VLAN that is processed
while it waits. It shares its record with every other query for the address, whatever
the VLAN; the record is completed by a reply on any VLAN, and erased by whoever gives
up first. Runs in which neither happens are sound.
-/

namespace IronStack.Proof

open IronStack Lib ArpQueries

/-- The record of a query that has not woken up yet. -/
def waitsFor (x : ArpQuery) : Option Nat :=
  match x.phase with
  | .registered r => some r
  | .waiting r => some r
  | .givingUp _ => none
  | .returned _ => none

/-- A query that still waits, and the record that it waits for. -/
def Waits (s : ArpQueries) (q : Nat) (x : ArpQuery) (r : Nat) : Prop :=
  s.queries q = some x ∧ waitsFor x = some r

/-- A query that still waits, and whose record is pending for its address. -/
def Registered (s : ArpQueries) (q : Nat) (x : ArpQuery) : Prop :=
  ∃ r, Waits s q x r ∧ s.pendingQueries[x.destIp]? = some r

/--
What a query has heard: whether it waited when the reply being processed came, and the first
MAC address.
-/
structure Hearing where
  listens : Bool
  mac : Option MacAddress

/-- What one transition lets a query hear. -/
def hear (q : Nat) (h : Hearing) (tr : Transition ArpQueries ArpQueryInput) : Hearing :=
  match tr.input with
  | .reply _ _ _ => { h with listens := ((tr.source.queries q).bind waitsFor).isSome }
  | .complete =>
      match tr.source.processing, tr.source.queries q with
      | some reply, some x =>
          if h.listens = true ∧ (waitsFor x).isSome = true ∧ reply.srcIp = x.destIp ∧
              reply.vlanId = x.vlanId ∧ h.mac = none then
            { h with mac := some reply.srcMac }
          else h
      | _, _ => h
  | _ => h

/--
The MAC address of the first reply for the address of a query, on its VLAN, that was
processed from beginning to end while the query waited.
-/
def heard (q : Nat) (ts : List (Transition ArpQueries ArpQueryInput)) : Hearing :=
  ts.foldl (hear q) ⟨false, none⟩

/-- A query that gives up leaves the others registered. -/
def KeepsOthers (tr : Transition ArpQueries ArpQueryInput) : Prop :=
  ∀ q, tr.input = .erase q → ∀ q' x, q' ≠ q → Registered tr.source q' x → Registered tr.target q' x

/--
A query returns a MAC address only if it has heard it; one that has heard an address
returns that; and giving up removes no other registration.
-/
structure QueriesSound (ts : List (Transition ArpQueries ArpQueryInput)) (s : ArpQueries) : Prop where
  only : ∀ q destIp vlanId mac, s.queries q = some ⟨destIp, vlanId, .returned mac⟩ →
    mac ≠ MacAddress.nil → (heard q ts).mac = some mac
  answered : ∀ q destIp vlanId mac reply, s.queries q = some ⟨destIp, vlanId, .returned mac⟩ →
    (heard q ts).mac = some reply → mac = reply
  kept : ∀ tr ∈ ts, KeepsOthers tr

/--
A query that gives up is the only one registered for its address, and a reply comes
on the VLAN of the queries that are registered for its address.
-/
def Undisturbed (s : ArpQueries) : ArpQueryInput → Prop
  | .erase q => ∀ x q' x', s.queries q = some x → q' ≠ q → x'.destIp = x.destIp → ¬ Registered s q' x'
  | .reply srcIp _ vlanId => ∀ q x, Registered s q x → x.destIp = srcIp → x.vlanId = vlanId
  | _ => True

/-! ## The invariant -/

/-- Where the answer to a query that waits comes from. -/
inductive Expects (s : ArpQueries) (h : Hearing) (x : ArpQuery) (r : Nat) : Prop where
  /-- Its record is pending. -/
  | pending (hpending : s.pendingQueries[x.destIp]? = some r) (hmac : h.mac = none)
      (hother : ∀ reply, s.processing = some reply → h.listens = true → reply.srcIp ≠ x.destIp)
  /-- The reply that is being processed has taken its record. -/
  | taken {reply : ArpReply} (hprocessing : s.processing = some reply) (hresult : reply.result = some r)
      (hip : reply.srcIp = x.destIp) (hvlan : reply.vlanId = x.vlanId) (hlistens : h.listens = true)
      (hmac : h.mac = none)
  /-- Its record is complete. -/
  | complete (hstatus : (s.records r).status = true) (hmac : h.mac = some (s.records r).resultMac)

/-- Pending records and the one taken are not complete, and no two of them are the same. -/
structure RecordsOk (s : ArpQueries) : Prop where
  pending : ∀ (a : IpAddress) (r : Nat), s.pendingQueries[a]? = some r →
    r < s.nextRecord ∧ (s.records r).status = false
  distinct : ∀ (a b : IpAddress) (r : Nat), s.pendingQueries[a]? = some r →
    s.pendingQueries[b]? = some r → a = b
  taken : ∀ reply r, s.processing = some reply → reply.result = some r →
    r < s.nextRecord ∧ (s.records r).status = false ∧ ∀ a : IpAddress, s.pendingQueries[a]? ≠ some r

/-- What a query has heard, and what it returns or will return. -/
structure QueryOk (s : ArpQueries) (q : Nat) (h : Hearing) : Prop where
  fresh : s.queries q = none → h.mac = none ∧ (s.processing.isSome → h.listens = false)
  waits : ∀ x r, Waits s q x r → r < s.nextRecord ∧ Expects s h x r
  givingUp : ∀ destIp vlanId r, s.queries q = some ⟨destIp, vlanId, .givingUp r⟩ → h.mac = none
  returned : ∀ destIp vlanId mac, s.queries q = some ⟨destIp, vlanId, .returned mac⟩ →
    mac = h.mac.getD MacAddress.nil

section Step

variable {s s' : ArpQueries} {q thread : Nat} {h : Hearing}

/-- What a step leaves alone for a query. -/
theorem QueryOk.congr (hok : QueryOk s q h) (hqueries : s'.queries q = s.queries q)
    (hprocessing : s'.processing = s.processing) (hnext : s.nextRecord ≤ s'.nextRecord)
    (hpending : ∀ x, Registered s q x → Registered s' q x)
    (hrecords : ∀ r < s.nextRecord, (s'.records r).status = (s.records r).status ∧
      (s'.records r).resultMac = (s.records r).resultMac) : QueryOk s' q h := by
  have hwaits : ∀ x r, Waits s' q x r → Waits s q x r := fun x r hx => ⟨hqueries ▸ hx.1, hx.2⟩
  refine ⟨fun hnone => ?_, fun x r hx => ?_, fun destIp vlanId r hg => ?_, fun destIp vlanId mac hr => ?_⟩
  · rw [hprocessing]
    exact hok.fresh (hqueries ▸ hnone)
  · obtain ⟨hlt, hexpects⟩ := hok.waits x r (hwaits x r hx)
    obtain ⟨hstatus, hresult⟩ := hrecords r hlt
    refine ⟨Nat.lt_of_lt_of_le hlt hnext, ?_⟩
    cases hexpects with
    | pending hpend hmac hother =>
        obtain ⟨r', hx', hpend'⟩ := hpending x ⟨r, hwaits x r hx, hpend⟩
        obtain rfl : r' = r := Option.some.inj (hx'.2.symm.trans hx.2)
        exact .pending hpend' hmac (hprocessing ▸ hother)
    | taken hreply hresult hip hvlan hlistens hmac =>
        exact .taken (hprocessing ▸ hreply) hresult hip hvlan hlistens hmac
    | complete hcomplete hmac => exact .complete (hstatus ▸ hcomplete) (hresult ▸ hmac)
  · exact hok.givingUp destIp vlanId r (hqueries ▸ hg)
  · exact hok.returned destIp vlanId mac (hqueries ▸ hr)

theorem queries_setQuery_of_ne (hne : q ≠ thread) (s : ArpQueries) (x : ArpQuery) :
    (s.setQuery thread x).queries q = s.queries q := if_neg hne

theorem queries_setQuery_self (s : ArpQueries) (thread : Nat) (x : ArpQuery) :
    (s.setQuery thread x).queries thread = some x := if_pos rfl

/-- A query that waits for a record. -/
theorem QueryOk.of_waiting {x : ArpQuery} {r : Nat} (hquery : s.queries q = some x)
    (hwaits : waitsFor x = some r) (hlt : r < s.nextRecord) (hexpects : Expects s h x r) : QueryOk s q h := by
  refine ⟨fun hn => ?_, fun x' r' hx => ?_, fun destIp vlanId r' hg => ?_, fun destIp vlanId mac hr => ?_⟩
  · rw [hquery] at hn
    cases hn
  · obtain ⟨hx, hr⟩ := hx
    obtain rfl := Option.some.inj (hquery.symm.trans hx)
    obtain rfl := Option.some.inj (hwaits.symm.trans hr)
    exact ⟨hlt, hexpects⟩
  · obtain rfl := Option.some.inj (hquery.symm.trans hg)
    cases hwaits
  · obtain rfl := Option.some.inj (hquery.symm.trans hr)
    cases hwaits

/-- A query that was just registered. -/
theorem QueryOk.of_registered (hok : QueryOk s q h) (hnone : s.queries q = none)
    (hprocessing : s'.processing = s.processing) {destIp : IpAddress} {vlanId : UInt16} {r : Nat}
    (hquery : s'.queries q = some ⟨destIp, vlanId, .registered r⟩) (hlt : r < s'.nextRecord)
    (hpending : s'.pendingQueries[destIp]? = some r) : QueryOk s' q h := by
  obtain ⟨hmac, hlistens⟩ := hok.fresh hnone
  refine .of_waiting hquery rfl hlt (.pending hpending hmac fun reply hreply hl => ?_)
  rw [hprocessing] at hreply
  rw [hlistens (by rw [hreply]; rfl)] at hl
  cases hl

theorem RecordsOk.register (hrecords : RecordsOk s) (destIp : IpAddress) (vlanId : UInt16) :
    RecordsOk (s.register thread destIp vlanId) := by
  rw [ArpQueries.register]
  split
  · rename_i hnone
    have hpend : ∀ (a : IpAddress) (r : Nat), (s.pendingQueries.insert destIp s.nextRecord)[a]? = some r →
        a = destIp ∧ r = s.nextRecord ∨ s.pendingQueries[a]? = some r := by
      intro a r ha
      rw [getElem?_insert] at ha
      split at ha
      · exact .inl ⟨(‹destIp = a›).symm, (Option.some.inj ha).symm⟩
      · exact .inr ha
    have hold : ∀ r < s.nextRecord, ((s.setRecord s.nextRecord {}).records r) = s.records r :=
      fun r hr => if_neg (Nat.ne_of_lt hr)
    refine ⟨fun a r ha => ?_, fun a b r ha hb => ?_, fun reply r hreply hr => ?_⟩
    · rcases hpend a r ha with ⟨_, rfl⟩ | ha'
      · exact ⟨Nat.lt_succ_self _, congrArg PendingQuery.status (if_pos rfl)⟩
      · obtain ⟨hlt, hstatus⟩ := hrecords.pending a r ha'
        exact ⟨Nat.lt_succ_of_lt hlt, (congrArg PendingQuery.status (hold r hlt)).trans hstatus⟩
    · rcases hpend a r ha with ⟨rfl, rfl⟩ | ha'
      · rcases hpend b _ hb with ⟨rfl, _⟩ | hb'
        · rfl
        · exact absurd (hrecords.pending b _ hb').1 (Nat.lt_irrefl _)
      · rcases hpend b r hb with ⟨_, rfl⟩ | hb'
        · exact absurd (hrecords.pending a _ ha').1 (Nat.lt_irrefl _)
        · exact hrecords.distinct a b r ha' hb'
    · obtain ⟨hlt, hstatus, hno⟩ := hrecords.taken reply r hreply hr
      refine ⟨Nat.lt_succ_of_lt hlt, (congrArg PendingQuery.status (hold r hlt)).trans hstatus,
        fun a ha => ?_⟩
      rcases hpend a r ha with ⟨_, rfl⟩ | ha'
      · exact Nat.lt_irrefl _ hlt
      · exact hno a ha'
  · exact ⟨hrecords.pending, hrecords.distinct, hrecords.taken⟩

theorem QueryOk.register (hok : QueryOk s q h) (hrecords : RecordsOk s) (hnone : s.queries thread = none)
    (destIp : IpAddress) (vlanId : UInt16) : QueryOk (s.register thread destIp vlanId) q h := by
  rw [ArpQueries.register]
  split
  · rename_i hpend
    by_cases hq : q = thread
    · subst hq
      refine hok.of_registered hnone rfl (queries_setQuery_self ..) (Nat.lt_succ_self _) ?_
      exact Std.ExtTreeMap.getElem?_insert_self
    · refine hok.congr (queries_setQuery_of_ne hq ..) rfl (Nat.le_succ _) (fun x ⟨r, hx, hreg⟩ => ?_) ?_
      · refine ⟨r, ⟨(queries_setQuery_of_ne hq ..).trans hx.1, hx.2⟩, ?_⟩
        show (s.pendingQueries.insert destIp s.nextRecord)[x.destIp]? = some r
        rw [getElem?_insert, if_neg, hreg]
        intro heq
        rw [← heq, hpend] at hreg
        cases hreg
      · intro r hr
        have hsame : (s.setRecord s.nextRecord {}).records r = s.records r := if_neg (Nat.ne_of_lt hr)
        exact ⟨congrArg PendingQuery.status hsame, congrArg PendingQuery.resultMac hsame⟩
  · rename_i r hpend
    by_cases hq : q = thread
    · subst hq
      exact hok.of_registered hnone rfl (queries_setQuery_self ..) (hrecords.pending _ _ hpend).1 hpend
    · refine hok.congr (queries_setQuery_of_ne hq ..) rfl (Nat.le_refl _) (fun x ⟨r, hx, hreg⟩ => ?_) ?_
      · exact ⟨r, ⟨(queries_setQuery_of_ne hq ..).trans hx.1, hx.2⟩, hreg⟩
      · exact fun _ _ => ⟨rfl, rfl⟩

/-- What becomes of the records where none is registered, and none changes its status. -/
theorem RecordsOk.congr (hok : RecordsOk s) (hnext : s'.nextRecord = s.nextRecord)
    (hprocessing : s'.processing = s.processing)
    (hpending : ∀ (a : IpAddress) (r : Nat), s'.pendingQueries[a]? = some r → s.pendingQueries[a]? = some r)
    (hstatus : ∀ r, (s'.records r).status = (s.records r).status) : RecordsOk s' := by
  refine ⟨fun a r ha => ?_, fun a b r ha hb => ?_, fun reply r hreply hr => ?_⟩
  · rw [hnext, hstatus]
    exact hok.pending a r (hpending a r ha)
  · exact hok.distinct a b r (hpending a r ha) (hpending b r hb)
  · rw [hprocessing] at hreply
    obtain ⟨hlt, hfalse, hno⟩ := hok.taken reply r hreply hr
    refine ⟨hnext ▸ hlt, (hstatus r).trans hfalse, fun a ha => hno a (hpending a r ha)⟩

/-- Locking a record changes neither its status nor its result. -/
theorem setRecord_lockedBy (s : ArpQueries) (n : Nat) (holder : Option Nat) (r : Nat) :
    ((s.setRecord n { s.records n with lockedBy := holder }).records r).status = (s.records r).status ∧
      ((s.setRecord n { s.records n with lockedBy := holder }).records r).resultMac =
        (s.records r).resultMac := by
  rw [setRecord]
  dsimp only
  split
  · rename_i heq
    subst heq
    exact ⟨rfl, rfl⟩
  · exact ⟨rfl, rfl⟩

/-- Beginning to wait. -/
theorem QueryOk.wait (hok : QueryOk s q h) {destIp : IpAddress} {vlanId : UInt16} {r : Nat}
    (hquery : s.queries thread = some ⟨destIp, vlanId, .registered r⟩) :
    QueryOk (s.setQuery thread ⟨destIp, vlanId, .waiting r⟩) q h := by
  by_cases hq : q = thread
  · subst hq
    obtain ⟨hlt, hexpects⟩ := hok.waits _ r ⟨hquery, rfl⟩
    refine .of_waiting (queries_setQuery_self ..) rfl hlt ?_
    cases hexpects with
    | pending hpend hmac hother => exact .pending hpend hmac hother
    | taken hreply hresult hip hvlan hlistens hmac => exact .taken hreply hresult hip hvlan hlistens hmac
    | complete hcomplete hmac => exact .complete hcomplete hmac
  · refine hok.congr (queries_setQuery_of_ne hq ..) rfl (Nat.le_refl _) (fun x ⟨r, hx, hreg⟩ => ?_) ?_
    · exact ⟨r, ⟨(queries_setQuery_of_ne hq ..).trans hx.1, hx.2⟩, hreg⟩
    · exact fun _ _ => ⟨rfl, rfl⟩

/-- A query that does not wait any more. -/
theorem QueryOk.of_done {x : ArpQuery} (hquery : s.queries q = some x) (hdone : waitsFor x = none)
    (hgiving : ∀ r, x.phase = .givingUp r → h.mac = none)
    (hreturned : ∀ mac, x.phase = .returned mac → mac = h.mac.getD MacAddress.nil) : QueryOk s q h := by
  refine ⟨fun hn => ?_, fun x' r hx => ?_, fun destIp vlanId r hg => ?_, fun destIp vlanId mac hr => ?_⟩
  · rw [hquery] at hn
    cases hn
  · obtain ⟨hx, hr⟩ := hx
    rw [hquery] at hx
    obtain rfl := Option.some.inj hx
    rw [hdone] at hr
    cases hr
  · rw [hquery] at hg
    exact hgiving r (congrArg ArpQuery.phase (Option.some.inj hg))
  · rw [hquery] at hr
    exact hreturned mac (congrArg ArpQuery.phase (Option.some.inj hr))

/-- Where the status is `false` nothing was heard. -/
theorem Expects.mac_eq_none {x : ArpQuery} {r : Nat} (he : Expects s h x r)
    (hstatus : (s.records r).status = false) : h.mac = none := by
  cases he with
  | pending _ hmac _ => exact hmac
  | taken _ _ _ _ _ hmac => exact hmac
  | complete hcomplete _ =>
      rw [hstatus] at hcomplete
      cases hcomplete

/-- Where it is `true` the result was heard. -/
theorem Expects.mac_eq_some {x : ArpQuery} {r : Nat} (he : Expects s h x r) (hrecords : RecordsOk s)
    (hstatus : (s.records r).status = true) : h.mac = some (s.records r).resultMac := by
  cases he with
  | pending hpend _ _ =>
      rw [(hrecords.pending _ r hpend).2] at hstatus
      cases hstatus
  | taken hreply hresult _ _ _ _ =>
      rw [(hrecords.taken _ r hreply hresult).2.1] at hstatus
      cases hstatus
  | complete _ hmac => exact hmac

/-- Waking up too early. -/
theorem QueryOk.giveUp (hok : QueryOk s q h) {destIp : IpAddress} {vlanId : UInt16} {r : Nat}
    (hquery : s.queries thread = some ⟨destIp, vlanId, .waiting r⟩) (hstatus : (s.records r).status = false) :
    QueryOk ((s.setRecord r { s.records r with lockedBy := some thread }).setQuery thread
      ⟨destIp, vlanId, .givingUp r⟩) q h := by
  by_cases hq : q = thread
  · subst hq
    have hexpects := (hok.waits _ r ⟨hquery, rfl⟩).2
    exact .of_done (queries_setQuery_self ..) rfl (fun _ _ => hexpects.mac_eq_none hstatus)
      (fun _ heq => nomatch heq)
  · refine hok.congr (queries_setQuery_of_ne hq ..) rfl (Nat.le_refl _) (fun x ⟨r, hx, hreg⟩ => ?_) ?_
    · exact ⟨r, ⟨(queries_setQuery_of_ne hq ..).trans hx.1, hx.2⟩, hreg⟩
    · exact fun r' _ => setRecord_lockedBy s r _ r'

/-- Waking up with a result. -/
theorem QueryOk.wake (hok : QueryOk s q h) (hrecords : RecordsOk s) {destIp : IpAddress} {vlanId : UInt16}
    {r : Nat} (hquery : s.queries thread = some ⟨destIp, vlanId, .waiting r⟩)
    (hstatus : (s.records r).status = true) :
    QueryOk (s.setQuery thread ⟨destIp, vlanId, .returned (s.records r).resultMac⟩) q h := by
  by_cases hq : q = thread
  · subst hq
    have hmac := (hok.waits _ r ⟨hquery, rfl⟩).2.mac_eq_some hrecords hstatus
    refine .of_done (queries_setQuery_self ..) rfl (fun _ heq => nomatch heq) fun mac heq => ?_
    rw [hmac]
    exact (QueryPhase.returned.inj heq).symm
  · refine hok.congr (queries_setQuery_of_ne hq ..) rfl (Nat.le_refl _) (fun x ⟨r, hx, hreg⟩ => ?_) ?_
    · exact ⟨r, ⟨(queries_setQuery_of_ne hq ..).trans hx.1, hx.2⟩, hreg⟩
    · exact fun _ _ => ⟨rfl, rfl⟩

/-- Giving up leaves a query registered that has another address. -/
theorem Registered.erase {x : ArpQuery} (hreg : Registered s q x) (hq : q ≠ thread) {destIp : IpAddress}
    (hne : x.destIp ≠ destIp) (p : ArpQuery) (r : Nat) (record : PendingQuery) :
    Registered { (s.setRecord r record).setQuery thread p with
      pendingQueries := s.pendingQueries.erase destIp } q x := by
  obtain ⟨r', hx, hpend⟩ := hreg
  refine ⟨r', ⟨(queries_setQuery_of_ne hq ..).trans hx.1, hx.2⟩, ?_⟩
  show (s.pendingQueries.erase destIp)[x.destIp]? = some r'
  rw [getElem?_erase, if_neg (Ne.symm hne)]
  exact hpend

/-- Giving up, where no other query is registered for the address. -/
theorem QueryOk.erase (hok : QueryOk s q h) {destIp : IpAddress} {vlanId : UInt16} {r : Nat}
    (hquery : s.queries thread = some ⟨destIp, vlanId, .givingUp r⟩) (hok' : Undisturbed s (.erase thread)) :
    QueryOk { (s.setRecord r { s.records r with lockedBy := none }).setQuery thread
        ⟨destIp, vlanId, .returned MacAddress.nil⟩ with
      pendingQueries := s.pendingQueries.erase destIp } q h := by
  by_cases hq : q = thread
  · subst hq
    refine .of_done (queries_setQuery_self ..) rfl (fun _ heq => nomatch heq) fun mac heq => ?_
    rw [hok.givingUp destIp vlanId r hquery]
    exact (QueryPhase.returned.inj heq).symm
  · refine hok.congr (queries_setQuery_of_ne hq ..) rfl (Nat.le_refl _) (fun x hreg => ?_) ?_
    · exact hreg.erase hq (fun heq => hok' _ q x hquery hq heq hreg) _ _ _
    · exact fun r' _ => setRecord_lockedBy s r _ r'

/-- A reply takes the pending query of its address. -/
theorem QueryOk.reply (hok : QueryOk s q h) (hidle : s.processing = none) {srcIp : IpAddress}
    {srcMac : MacAddress} {vlanId : UInt16} (hok' : Undisturbed s (.reply srcIp srcMac vlanId)) :
    QueryOk { s with
        processing := some ⟨srcIp, srcMac, vlanId, s.pendingQueries[srcIp]?⟩
        pendingQueries := s.pendingQueries.erase srcIp } q
      { h with listens := ((s.queries q).bind waitsFor).isSome } := by
  -- a query that waits now listens to this reply, which takes its record if it is for its address
  refine ⟨fun hn => ⟨(hok.fresh hn).1, fun _ => ?_⟩, fun x r hx => ?_, hok.givingUp, hok.returned⟩
  · have hn : s.queries q = none := hn
    rw [hn]
    rfl
  · have hx : Waits s q x r := hx
    obtain ⟨hlt, hexpects⟩ := hok.waits x r hx
    have hlistens : ((s.queries q).bind waitsFor).isSome = true := by
      rw [hx.1, Option.bind_some, hx.2]
      rfl
    refine ⟨hlt, ?_⟩
    cases hexpects with
    | pending hpend hmac _ =>
        by_cases hip : srcIp = x.destIp
        · subst hip
          exact .taken rfl hpend rfl (hok' q x ⟨r, hx, hpend⟩ rfl).symm hlistens hmac
        · refine .pending ?_ hmac fun reply hreply _ => ?_
          · exact (getElem?_erase ..).trans ((if_neg hip).trans hpend)
          · obtain rfl := Option.some.inj hreply
            exact hip
    | taken hreply _ _ _ _ _ =>
        rw [hidle] at hreply
        cases hreply
    | complete hcomplete hmac => exact .complete hcomplete hmac

theorem RecordsOk.reply (hok : RecordsOk s) (srcIp : IpAddress) (srcMac : MacAddress) (vlanId : UInt16) :
    RecordsOk { s with
      processing := some ⟨srcIp, srcMac, vlanId, s.pendingQueries[srcIp]?⟩
      pendingQueries := s.pendingQueries.erase srcIp } := by
  have hpend : ∀ (a : IpAddress) (r : Nat), (s.pendingQueries.erase srcIp)[a]? = some r →
      srcIp ≠ a ∧ s.pendingQueries[a]? = some r := by
    intro a r ha
    rw [getElem?_erase] at ha
    split at ha
    · cases ha
    · exact ⟨‹_›, ha⟩
  refine ⟨fun a r ha => hok.pending a r (hpend a r ha).2, fun a b r ha hb => ?_, fun reply r hreply hr => ?_⟩
  · exact hok.distinct a b r (hpend a r ha).2 (hpend b r hb).2
  · obtain rfl := Option.some.inj hreply
    obtain ⟨hlt, hstatus⟩ := hok.pending srcIp r hr
    refine ⟨hlt, hstatus, fun a ha => ?_⟩
    exact (hpend a r ha).1 (hok.distinct srcIp a r hr (hpend a r ha).2)

/-- Completing a record that was taken out changes no other. -/
theorem RecordsOk.complete (hok : RecordsOk s) {reply : ArpReply} {record : Nat}
    (hreply : s.processing = some reply) (hresult : reply.result = some record) (p : PendingQuery) :
    RecordsOk { s.setRecord record p with processing := none } := by
  have hno := (hok.taken reply record hreply hresult).2.2
  refine ⟨fun a r ha => ?_, hok.distinct, fun _ _ hnone => nomatch hnone⟩
  have ha : s.pendingQueries[a]? = some r := ha
  have hne : r ≠ record := fun heq => hno a (heq ▸ ha)
  obtain ⟨hlt, hstatus⟩ := hok.pending a r ha
  exact ⟨hlt, (congrArg PendingQuery.status (if_neg hne)).trans hstatus⟩

/-- What a query hears when a reply has been processed. -/
theorem hear_complete {reply : ArpReply} (hreply : s.processing = some reply) {x : ArpQuery}
    (hquery : s.queries q = some x) (s' : ArpQueries) :
    hear q h ⟨s, .complete, s'⟩ =
      if h.listens = true ∧ (waitsFor x).isSome = true ∧ reply.srcIp = x.destIp ∧
          reply.vlanId = x.vlanId ∧ h.mac = none then
        { h with mac := some reply.srcMac }
      else h := by
  simp only [hear, hreply, hquery]

/-- A query that does not wait hears nothing. -/
theorem hear_complete_of_done {x : ArpQuery} (hquery : s.queries q = some x) (hdone : waitsFor x = none)
    (s' : ArpQueries) : hear q h ⟨s, .complete, s'⟩ = h := by
  cases hreply : s.processing with
  | none => simp only [hear, hreply]
  | some reply =>
      rw [hear_complete hreply hquery, hdone, if_neg]
      exact fun hc => nomatch hc.2.1

/-- The reply has been processed: it is what every query returns whose record it has taken. -/
theorem QueryOk.complete (hok : QueryOk s q h) (hrecords : RecordsOk s) {reply : ArpReply}
    (hreply : s.processing = some reply) (hprocessing : s'.processing = none)
    (hqueries : s'.queries = s.queries) (hpending : s'.pendingQueries = s.pendingQueries)
    (hnext : s'.nextRecord = s.nextRecord)
    (hcompleted : ∀ r, reply.result = some r →
      (s'.records r).status = true ∧ (s'.records r).resultMac = reply.srcMac)
    (hothers : ∀ r, reply.result ≠ some r → s'.records r = s.records r) :
    QueryOk s' q (hear q h ⟨s, .complete, s'⟩) := by
  cases hq : s.queries q with
  | none =>
      have hfresh := hok.fresh hq
      have hsame : hear q h ⟨s, .complete, s'⟩ = h := by simp only [hear, hreply, hq]
      rw [hsame]
      have hnone : s'.queries q = none := hqueries ▸ hq
      refine ⟨fun _ => ⟨hfresh.1, fun hsome => ?_⟩, fun x r hx => ?_, fun _ _ _ hg => ?_, fun _ _ _ hr => ?_⟩
      · rw [hprocessing] at hsome
        cases hsome
      · rw [Waits, hnone] at hx
        exact nomatch hx.1
      · rw [hnone] at hg
        cases hg
      · rw [hnone] at hr
        cases hr
  | some x =>
      have hq' : s'.queries q = some x := hqueries ▸ hq
      cases hw : waitsFor x with
      | none =>
          rw [hear_complete_of_done hq hw]
          obtain ⟨destIp, vlanId, phase⟩ := x
          refine .of_done hq' hw (fun r heq => ?_) (fun mac heq => ?_)
          · exact hok.givingUp destIp vlanId r (by rw [hq]; exact congrArg _ (congrArg _ heq))
          · exact hok.returned destIp vlanId mac (by rw [hq]; exact congrArg _ (congrArg _ heq))
      | some r =>
          obtain ⟨hlt, hexpects⟩ := hok.waits x r ⟨hq, hw⟩
          refine .of_waiting hq' hw (hnext ▸ hlt) ?_
          rw [hear_complete hreply hq]
          cases hexpects with
          | pending hpend hmac hother =>
              -- Whoever listens and has its record pending waits for another address.
              rw [if_neg fun hc => hother reply hreply hc.1 hc.2.2.1]
              refine .pending (hpending ▸ hpend) hmac fun reply' hreply' _ => ?_
              rw [hprocessing] at hreply'
              cases hreply'
          | taken hreply' hresult hip hvlan hlistens hmac =>
              obtain rfl := Option.some.inj (hreply.symm.trans hreply')
              rw [if_pos ⟨hlistens, by rw [hw]; rfl, hip, hvlan, hmac⟩]
              obtain ⟨hstatus, hresultMac⟩ := hcompleted r hresult
              exact .complete hstatus (congrArg some hresultMac.symm)
          | complete hcomplete hmac =>
              rw [if_neg (by rw [hmac]; exact fun hc => nomatch hc.2.2.2.2)]
              have hne : reply.result ≠ some r := by
                intro heq
                rw [(hrecords.taken reply r hreply heq).2.1] at hcomplete
                cases hcomplete
              exact .complete (by rw [hothers r hne]; exact hcomplete) (by rw [hothers r hne]; exact hmac)

/-! ## Steps and runs -/

/-- An undisturbed step keeps the invariant. -/
theorem ok_step {input : ArpQueryInput} (hrecords : RecordsOk s) (hok : QueryOk s q h)
    (hundisturbed : Undisturbed s input) (hstep : step s input = some s') :
    RecordsOk s' ∧ QueryOk s' q (hear q h ⟨s, input, s'⟩) := by
  cases input with
  | query thread destIp vlanId =>
      rw [step] at hstep
      split at hstep
      · cases hstep
      · rename_i hfree
        obtain rfl := Option.some.inj hstep
        have hnone : s.queries thread = none := by simpa using hfree
        -- the thread has no query yet, so it has heard nothing
        exact ⟨hrecords.register destIp vlanId, hok.register hrecords hnone destIp vlanId⟩
  | wait thread =>
      rw [step] at hstep
      split at hstep
      · rename_i hquery
        split at hstep
        · cases hstep
        · obtain rfl := Option.some.inj hstep
          exact ⟨hrecords.congr rfl rfl (fun _ _ ha => ha) fun _ => rfl, hok.wait hquery⟩
      · cases hstep
  | wake thread =>
      rw [step] at hstep
      split at hstep
      · rename_i record hquery
        split at hstep
        · cases hstep
        · split at hstep
          · rename_i hstatus
            obtain rfl := Option.some.inj hstep
            have hfalse : (s.records record).status = false := by simpa using hstatus
            refine ⟨hrecords.congr rfl rfl (fun _ _ ha => ha) fun r => ?_, hok.giveUp hquery hfalse⟩
            exact (setRecord_lockedBy s record _ r).1
          · rename_i hstatus
            obtain rfl := Option.some.inj hstep
            have htrue : (s.records record).status = true := by simpa using hstatus
            exact ⟨hrecords.congr rfl rfl (fun _ _ ha => ha) fun _ => rfl, hok.wake hrecords hquery htrue⟩
      · cases hstep
  | erase thread =>
      rw [step] at hstep
      split at hstep
      · rename_i destIp vlanId record hquery
        obtain rfl := Option.some.inj hstep
        -- an erased record is one record less that is pending
        refine ⟨hrecords.congr rfl rfl (fun a r ha => ?_) fun r => ?_, hok.erase hquery hundisturbed⟩
        · have ha : (s.pendingQueries.erase destIp)[a]? = some r := ha
          rw [getElem?_erase] at ha
          split at ha
          · cases ha
          · exact ha
        · exact (setRecord_lockedBy s record _ r).1
      · cases hstep
  | reply srcIp srcMac vlanId =>
      rw [step] at hstep
      split at hstep
      · cases hstep
      · rename_i hidle
        obtain rfl := Option.some.inj hstep
        have hnone : s.processing = none := by simpa using hidle
        exact ⟨hrecords.reply srcIp srcMac vlanId, hok.reply hnone hundisturbed⟩
  | complete =>
      rw [step] at hstep
      split at hstep
      · cases hstep
      · rename_i hreply
        obtain rfl := Option.some.inj hstep
        -- no record was taken out: nothing is completed
        refine ⟨⟨hrecords.pending, hrecords.distinct, fun _ _ hnone => nomatch hnone⟩, ?_⟩
        exact hok.complete hrecords hreply rfl rfl rfl rfl (fun _ heq => nomatch heq) fun _ _ => rfl
      · rename_i record hreply
        split at hstep
        · cases hstep
        · obtain rfl := Option.some.inj hstep
          refine ⟨hrecords.complete hreply rfl _, ?_⟩
          refine hok.complete hrecords hreply rfl rfl rfl rfl (fun r heq => ?_) fun r hne => ?_
          · obtain rfl := Option.some.inj heq
            exact ⟨congrArg PendingQuery.status (if_pos rfl), congrArg PendingQuery.resultMac (if_pos rfl)⟩
          · exact if_neg fun heq => hne (congrArg some heq.symm)

end Step

/-- In an undisturbed run what a query returns is what it has heard. -/
theorem ok_run {ts : List (Transition ArpQueries ArpQueryInput)} {s : ArpQueries}
    (hrun : Run step {} ts s) (hok : ∀ tr ∈ ts, Undisturbed tr.source tr.input) :
    RecordsOk s ∧ ∀ q, QueryOk s q (heard q ts) := by
  induction hrun with
  | nil =>
      have hempty : ∀ (a : IpAddress) (r : Nat), ({} : ArpQueries).pendingQueries[a]? ≠ some r := by
        intro a r ha
        rw [Std.ExtTreeMap.getElem?_empty] at ha
        cases ha
      refine ⟨⟨fun a r ha => absurd ha (hempty a r), fun a _ r ha => absurd ha (hempty a r),
        fun _ _ hnone => nomatch hnone⟩, fun q => ?_⟩
      refine ⟨fun _ => ⟨rfl, fun _ => rfl⟩, fun _ _ hx => ?_, fun _ _ _ hg => ?_, fun _ _ _ hr => ?_⟩
      · exact nomatch hx.1
      · exact nomatch hg
      · exact nomatch hr
  | snoc _ hstep ih =>
      obtain ⟨hrecords, hqueries⟩ := ih fun tr htr => hok tr (List.mem_append_left _ htr)
      have hundisturbed := hok _ (List.mem_append_right _ (List.mem_singleton.mpr rfl))
      -- the invariant of the records is the same for all queries, so any one of them will do
      refine ⟨(ok_step hrecords (hqueries 0) hundisturbed hstep).1, fun q => ?_⟩
      rw [heard, List.foldl_append]
      exact (ok_step hrecords (hqueries q) hundisturbed hstep).2

/-- Who gives up alone leaves the others registered. -/
theorem keepsOthers_of_undisturbed {tr : Transition ArpQueries ArpQueryInput}
    (hstep : step tr.source tr.input = some tr.target) (hok : Undisturbed tr.source tr.input) :
    KeepsOthers tr := by
  intro q hinput q' x hq hreg
  rw [hinput] at hstep hok
  rw [step] at hstep
  split at hstep
  · rename_i destIp vlanId record hquery
    rw [← Option.some.inj hstep]
    exact hreg.erase hq (fun heq => hok _ q' x hquery hq heq hreg) _ _ _
  · cases hstep

/--
**Blocking queries are sound in every undisturbed run**: where a query that gives up
is the only one registered for its address, and each reply comes on the VLAN of the
queries registered for its address.
-/
theorem queries_sound {ts : List (Transition ArpQueries ArpQueryInput)} {s : ArpQueries}
    (hrun : Run step {} ts s) (hok : ∀ tr ∈ ts, Undisturbed tr.source tr.input) : QueriesSound ts s := by
  have hqueries := (ok_run hrun hok).2
  refine ⟨fun q destIp vlanId mac hr hmac => ?_, fun q destIp vlanId mac reply hr hheard => ?_,
    fun tr htr => ?_⟩
  · have hreturned := (hqueries q).returned destIp vlanId mac hr
    cases hheard : (heard q ts).mac with
    | none =>
        rw [hheard] at hreturned
        exact absurd hreturned hmac
    | some reply =>
        rw [hheard] at hreturned
        exact congrArg some hreturned.symm
  · have hreturned := (hqueries q).returned destIp vlanId mac hr
    rw [hheard] at hreturned
    exact hreturned
  · exact keepsOthers_of_undisturbed (hrun.step_of_mem htr) (hok tr htr)

/-! ## One query, and one reply -/

def gatewayIp : IpAddress := .ofOctets 10 0 0 1

def gatewayMac : MacAddress := .ofOctets 0 1 2 3 4 5

def askedForGateway : ArpQueries := ({} : ArpQueries).register 0 gatewayIp 10

def waitingForGateway : ArpQueries := askedForGateway.setQuery 0 ⟨gatewayIp, 10, .waiting 0⟩

def gatewayInputs (vlanId : UInt16) : List ArpQueryInput :=
  [.query 0 gatewayIp 10, .wait 0, .reply gatewayIp gatewayMac vlanId, .complete, .wake 0]

/-- The reply comes while the query on VLAN 10 waits, on any VLAN, and is returned. -/
theorem gateway_run (vlanId : UInt16) : ∃ s₁ s₂ s₃,
    Run step {} [⟨{}, .query 0 gatewayIp 10, askedForGateway⟩, ⟨askedForGateway, .wait 0, waitingForGateway⟩,
      ⟨waitingForGateway, .reply gatewayIp gatewayMac vlanId, s₁⟩, ⟨s₁, .complete, s₂⟩,
        ⟨s₂, .wake 0, s₃⟩] s₃ ∧
    s₃.queries 0 = some ⟨gatewayIp, 10, .returned gatewayMac⟩ :=
  ⟨_, _, _, .of_record (show record step {} (gatewayInputs vlanId) = some (_, _) from rfl), rfl⟩

/-- The query alone waits, for a reply on its VLAN. -/
theorem queries_sound_gateway : ∃ ts s, Run step {} ts s ∧
    s.queries 0 = some ⟨gatewayIp, 10, .returned gatewayMac⟩ ∧ QueriesSound ts s := by
  obtain ⟨s₁, s₂, s₃, hrun, hreturned⟩ := gateway_run 10
  refine ⟨_, s₃, hrun, hreturned, queries_sound hrun fun tr htr => ?_⟩
  simp only [List.mem_cons, List.not_mem_nil, or_false] at htr
  rcases htr with rfl | rfl | rfl | rfl | rfl
  · trivial
  · trivial
  · intro q x hreg _
    obtain ⟨r, ⟨hx, _⟩, _⟩ := hreg
    by_cases hq : q = 0
    · rw [waitingForGateway, hq, queries_setQuery_self] at hx
      exact congrArg ArpQuery.vlanId (Option.some.inj hx).symm
    · rw [waitingForGateway, queries_setQuery_of_ne hq, askedForGateway] at hx
      exact nomatch hx.symm.trans (queries_setQuery_of_ne hq _ _)
  · trivial
  · trivial

/-- A reply on VLAN 20 is returned to the query on VLAN 10. -/
theorem gateway_wrong_vlan : ∃ ts s, Run step {} ts s ∧ ¬ QueriesSound ts s := by
  refine ⟨_, _, .of_record (show record step {} (gatewayInputs 20) = some (_, _) from rfl), fun hsound => ?_⟩
  have hheard := hsound.only 0 gatewayIp 10 gatewayMac rfl (by decide)
  exact nomatch hheard

end IronStack.Proof

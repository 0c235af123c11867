import IronStack.Common
import Mathlib.Data.Finset.Basic
import Mathlib.Data.Fintype.OfMap

/-!
# `service_catalog::deferred_init_services`

The catalog has one slot for each type of service. When the switch is up, the second
half of the initialization of the registered services is run, each after those it
depends on. The code goes round a `set<shared_ptr<service>>`, which is ordered by
address: the services come in any order.

`init2` is the services' own. It is taken to return, and its answer may depend on the
calls that were made before.
-/

namespace IronStack

/-- `service_catalog::service_type`. -/
inductive ServiceType where
  | arp
  | cam
  | switchState
  | flows
  | echoServer
  | operationalStats
  | flowPolicyChecker
  | interIronstack
  | alwaysAtLast
deriving DecidableEq, Repr

instance : Fintype ServiceType :=
  Fintype.ofList [.arp, .cam, .switchState, .flows, .echoServer, .operationalStats,
    .flowPolicyChecker, .interIronstack, .alwaysAtLast] (by intro t; cases t <;> decide)

/-- `service`, as far as its initialization goes. -/
structure Service where
  serviceType : ServiceType
  dependencies : Finset ServiceType
deriving DecidableEq

/-- A call of `init2`, and what it returned. -/
structure Init2Call where
  serviceType : ServiceType
  succeeded : Bool
deriving DecidableEq, Repr

/-- The registered services, by address. A slot holds one service, of its own type. -/
structure RegisteredServices where
  services : List Service
  distinct : (services.map Service.serviceType).Nodup

/-- `initialized_services`, and the calls made so far. -/
structure InitProgress where
  initializedServices : Finset ServiceType
  calls : List Init2Call

/-- How a round over the uninitialized services can end. -/
inductive RoundEnd where
  /-- An `init2` failed, and with it the whole initialization: `return false`. -/
  | failed (calls : List Init2Call)
  /-- The iterator has reached the end. -/
  | over (uninitialized : List Service) (initializedThisRound : Bool) (progress : InitProgress)

namespace ServiceCatalog

/-- The call of `init2` on a service returned `true`. -/
def InitProgress.withInitialized (p : InitProgress) (s : Service) : InitProgress where
  initializedServices := insert s.serviceType p.initializedServices
  calls := p.calls ++ [⟨s.serviceType, true⟩]

variable (init2 : List Init2Call → Service → Bool)

/--
The inner loop, with the services from the iterator on as its last argument; the
ones that were passed over stay in the set.
-/
def initRound (passed : List Service) (thisRound : Bool) (p : InitProgress) :
    List Service → RoundEnd
  | [] => .over passed thisRound p
  | s :: rest =>
      -- `includes`: the dependencies have been fulfilled
      if s.dependencies ⊆ p.initializedServices then
        if init2 p.calls s then initRound passed true (InitProgress.withInitialized p s) rest
        else .failed (p.calls ++ [⟨s.serviceType, false⟩])
      else initRound (passed ++ [s]) thisRound p rest

/-- A round that initializes a service leaves fewer of them. -/
theorem length_initRound {passed rest left : List Service} {thisRound thisRound' : Bool}
    {p p' : InitProgress}
    (h : initRound init2 passed thisRound p rest = .over left thisRound' p') :
    left.length ≤ passed.length + rest.length ∧
      (thisRound = false → thisRound' = true → left.length < passed.length + rest.length) := by
  induction rest generalizing passed thisRound p with
  | nil =>
      obtain ⟨rfl, rfl, rfl⟩ := RoundEnd.over.inj h
      refine ⟨Nat.le_add_right _ _, ?_⟩
      intro hfalse htrue
      rw [hfalse] at htrue
      cases htrue
  | cons s rest ih =>
      rw [initRound] at h
      split at h
      · split at h
        · have hlen := (ih h).1
          rw [List.length_cons]
          omega
        · cases h
      · obtain ⟨hle, hlt⟩ := ih h
        rw [List.length_append, List.length_singleton] at hle hlt
        rw [List.length_cons]
        refine ⟨by omega, ?_⟩
        intro hfalse htrue
        have := hlt hfalse htrue
        omega

/-- The rounds: what is returned, and all calls that were made. -/
def initRounds (uninitialized : List Service) (p : InitProgress) : Bool × List Init2Call :=
  if uninitialized = [] then (true, p.calls)
  else
    match h : initRound init2 [] false p uninitialized with
    | .failed calls => (false, calls)
    | .over left thisRound p' =>
        if hround : thisRound = true then
          have : left.length < uninitialized.length := by
            simpa using (length_initRound init2 h).2 rfl hround
          initRounds left p'
        else (left.isEmpty, p'.calls)
termination_by uninitialized.length

/-- `service_catalog::deferred_init_services`. -/
def deferredInitServices (registered : RegisteredServices) : Bool × List Init2Call :=
  initRounds init2 registered.services ⟨∅, []⟩

end ServiceCatalog

end IronStack

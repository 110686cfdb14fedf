import Mathlib.Data.List.MinMax
import VeilNetwork.Anonymity.CircuitTable

/-!
# Circuit rendezvous subscriptions

The registry of `circuit_register.rs`: a receiver binds a cookie to the circuit it built, by a
registration signed with the key that the cookie is derived from. Signatures and the derivation
of cookies are parameters.

Circuits are shared with the circuit table and with the handlers of cells, so the registry holds
their handles; `circuits` gives the state of every handle. Cookies are listed by the link their
circuit arrived on, which bounds what one neighbour can make the relay hold.
-/

namespace VeilNetwork.Anonymity

/-- The signatures and the derivation of cookies. -/
structure RegisterCrypto where
  verifyMessage : FixedBytes 32 → List UInt8 → List UInt8 → Bool
  cookieForRegPk : FixedBytes 32 → Cookie

/-- `REGISTER_DOMAIN`. -/
def registerDomain : List UInt8 :=
  "veil.circuit.register.v1".toList.map (fun c => UInt8.ofNat c.toNat) ++ [0]

/-- A signed registration. -/
structure CircuitRegisterPayload where
  cookie : Cookie
  regPk : FixedBytes 32
  epoch : UInt64
  signature : List UInt8

namespace CircuitRegisterPayload

/-- What is signed. -/
def signingBytes (cookie : Cookie) (regPk : FixedBytes 32) (epoch : UInt64) : List UInt8 :=
  registerDomain ++ (cookie.1 ++ (regPk.1 ++ Bytes.toBe 8 epoch.toNat))

def verify (S : RegisterCrypto) (p : CircuitRegisterPayload) : Bool :=
  S.verifyMessage p.regPk (signingBytes p.cookie p.regPk p.epoch) p.signature

end CircuitRegisterPayload

inductive RegisterError where
  | badSignature
  | cookieClaimed
  | full
  | staleEpoch
  | cookieNotBoundToKey
deriving DecidableEq

/-- A cookie's binding; `circuit` is the handle of its circuit. -/
structure Subscription where
  regPk : FixedBytes 32
  circuit : ℕ
  registeredUnix : ℕ
  epoch : UInt64
deriving DecidableEq

/-- `CircuitRendezvousRegistry`, with the states of all circuits. -/
structure Registry where
  cap : ℕ
  perLinkCap : ℕ
  ttlSecs : ℕ
  circuits : ℕ → CircuitState
  subs : Table Cookie Subscription
  perLink : Buckets Link Cookie
  overLinkCapEvictions : ℕ

namespace Registry

def withLinkCap (circuits : ℕ → CircuitState) (cap perLinkCap ttlSecs : ℕ) : Registry where
  cap := max cap 1
  perLinkCap := max perLinkCap 1
  ttlSecs := ttlSecs
  circuits := circuits
  subs := ∅
  perLink := ∅
  overLinkCapEvictions := 0

variable (r : Registry)

/-- The link a subscription's circuit arrived on. -/
def linkOf (sub : Subscription) : Link := (r.circuits sub.circuit).prevLink

variable (prevLink : Link)

def bucketLen : ℕ := (r.perLink.bucket prevLink).length

/-! ### The two indices -/

section

variable (cookie : Cookie)

/-- The buckets after a subscription under a cookie took the place of what was there. -/
def rebucket (sub : Subscription) : Buckets Link Cookie :=
  match r.subs.lookup cookie with
  | some prev =>
    if r.linkOf prev = r.linkOf sub then r.perLink
    else (r.perLink.unbucket (r.linkOf prev) cookie).push (r.linkOf sub) cookie
  | none => r.perLink.push (r.linkOf sub) cookie

def insert (r : Registry) (cookie : Cookie) (sub : Subscription) : Registry :=
  { r with subs := r.subs.insert cookie sub, perLink := r.rebucket cookie sub }

def remove : Registry × Option Subscription :=
  match r.subs.lookup cookie with
  | none => (r, none)
  | some sub =>
    ({ r with
        subs := r.subs.erase cookie
        perLink := r.perLink.unbucket (r.linkOf sub) cookie }, some sub)

/-! ### The operations -/

/-- When the circuit of a cookie last served. -/
def lastServed : ℕ :=
  (r.subs.lookup cookie).elim 0 fun sub => (r.circuits sub.circuit).lastServedUnix

/-- When a cookie was last registered. -/
def registered : ℕ :=
  (r.subs.lookup cookie).elim 0 Subscription.registeredUnix

end

/-- Which cookie of a link is dropped: the one that served longest ago, or, if none has served,
the one registered longest ago. -/
def victim : Option Cookie :=
  (((r.perLink.bucket prevLink).filter fun cookie => r.lastServed cookie != 0).argmin
    r.lastServed).or ((r.perLink.bucket prevLink).argmin r.registered)

/-- One slot for a link that is at its ceiling; the second result says whether a binding was
dropped. -/
def makeRoomForLink : Registry × Bool :=
  if r.bucketLen prevLink < r.perLinkCap then (r, false)
  else
    match r.victim prevLink with
    | none => (r, false)
    | some cookie => ((r.remove cookie).1, (r.remove cookie).2.isSome)

/-- Room for a new cookie, with the evictions counted. -/
def makeRoom : Registry :=
  if (r.makeRoomForLink prevLink).2 then
    { (r.makeRoomForLink prevLink).1 with overLinkCapEvictions := r.overLinkCapEvictions + 1 }
  else (r.makeRoomForLink prevLink).1

/-- Change the circuit with a handle. -/
def modify (circuit : ℕ) (f : CircuitState → CircuitState) : Registry :=
  { r with circuits := Function.update r.circuits circuit (f (r.circuits circuit)) }

/-- Bind a cookie to a circuit, and record the cookie on the circuit. -/
def bind (p : CircuitRegisterPayload) (circuit nowUnix : ℕ) : Registry :=
  (r.modify circuit (CircuitState.setRegisteredCookie p.cookie)).insert p.cookie
    ⟨p.regPk, circuit, nowUnix, p.epoch⟩

variable (S : RegisterCrypto)

/-- Let a cookie point to a circuit. -/
def register (r : Registry) (p : CircuitRegisterPayload) (circuit nowUnix : ℕ) :
    Registry × Except RegisterError Unit :=
  if ¬p.verify S then (r, .error .badSignature)
  else if p.cookie ≠ S.cookieForRegPk p.regPk then (r, .error .cookieNotBoundToKey)
  else
    match r.subs.lookup p.cookie with
    | some existing =>
      if existing.regPk ≠ p.regPk then (r, .error .cookieClaimed)
      else if p.epoch ≤ existing.epoch then (r, .error .staleEpoch)
      else (r.bind p circuit nowUnix, .ok ())
    | none =>
      if r.cap ≤ r.subs.size then (r, .error .full)
      else ((r.makeRoom (r.circuits circuit).prevLink).bind p circuit nowUnix, .ok ())

def lookup (r : Registry) (cookie : Cookie) : Option ℕ :=
  (r.subs.lookup cookie).map Subscription.circuit

def removeIfCurrent (cookie : Cookie) (circuit : ℕ) : Registry × Bool :=
  if (r.subs.lookup cookie).any fun sub => sub.circuit = circuit then ((r.remove cookie).1, true)
  else (r, false)

/-- The receiver of a cookie has been idle for the lifetime. -/
def expired (nowUnix : ℕ) (cookie : Cookie) : Bool :=
  (r.subs.lookup cookie).any fun sub =>
    r.ttlSecs ≤ nowUnix - max sub.registeredUnix (r.circuits sub.circuit).lastSeenUnix

def removeAll (cookies : List Cookie) : Registry :=
  cookies.foldl (fun r cookie => (r.remove cookie).1) r

/-- Drop what ran out. -/
def gc (nowUnix : ℕ) : Registry × ℕ :=
  (r.removeAll (r.subs.keys.filter (r.expired nowUnix)),
    (r.subs.keys.filter (r.expired nowUnix)).length)

/-! ### Runs -/

/-- The calls. -/
inductive Op where
  | register (p : CircuitRegisterPayload) (circuit nowUnix : ℕ)
  | removeIfCurrent (cookie : Cookie) (circuit : ℕ)
  | gc (nowUnix : ℕ)
  | touch (circuit now : ℕ)
  | markServed (circuit now : ℕ)

/-- One call. -/
def step (r : Registry) : Op → Registry
  | .register p circuit nowUnix => (r.register S p circuit nowUnix).1
  | .removeIfCurrent cookie circuit => (r.removeIfCurrent cookie circuit).1
  | .gc nowUnix => (r.gc nowUnix).1
  | .touch circuit now => r.modify circuit (CircuitState.touch now)
  | .markServed circuit now => r.modify circuit (CircuitState.markServed now)

/-- The registration a step accepts, with its circuit. -/
def accepted (r : Registry) : Op → List (CircuitRegisterPayload × ℕ)
  | .register p circuit nowUnix =>
    match (r.register S p circuit nowUnix).2 with
    | .ok () => [(p, circuit)]
    | .error _ => []
  | _ => []

end Registry

end VeilNetwork.Anonymity

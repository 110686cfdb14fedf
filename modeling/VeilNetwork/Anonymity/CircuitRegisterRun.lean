import VeilNetwork.Anonymity.CircuitRegister
import VeilNetwork.Lib.Run

/-!
# Runs of the circuit registry

Any sequence of registrations, teardowns and sweeps, with circuits on any links that are touched
and served in between. In every run a held cookie is bound to the circuit of the last accepted
registration, signed by the key the cookie is derived from, epochs only grow while it is held,
the buckets list the held cookies by their links, and the whole stays under its cap.

The ceiling of one link is another matter. It is enforced for new cookies only, while a refresh
may move a cookie to another link, whose bucket then grows past the ceiling
(`Registry.refresh_exceeds_link_cap`). In a run whose refreshes stay on their link or find room
(`Registry.Roomy`) it holds: `Registry.roomy_run_keeps_subscriptions`.
-/

namespace VeilNetwork.Anonymity.Registry

open List Option Table Function

variable {S : RegisterCrypto} {r r' r'' : Registry} {cookie cookie' : Cookie}
  {sub sub' : Subscription} {p : CircuitRegisterPayload} {circuit now : ℕ} {link : Link}

/-! ### The buckets list the held cookies -/

/-- A cookie is held for a link. -/
def HeldOn (r : Registry) (link : Link) (cookie : Cookie) : Prop :=
  ∃ sub, r.subs.lookup cookie = some sub ∧ r.linkOf sub = link

/-- **The buckets list exactly the held cookies**, by the link of their circuit. -/
def Indexed (r : Registry) : Prop := r.perLink.Index r.HeldOn

/-- Subscriptions have left the registry and nothing else has happened to it. -/
structure Shrinks (r r' : Registry) : Prop where
  circuits_eq : r'.circuits = r.circuits
  cap_eq : r'.cap = r.cap
  perLinkCap_eq : r'.perLinkCap = r.perLinkCap
  lookup_of : ∀ cookie sub, r'.subs.lookup cookie = some sub → r.subs.lookup cookie = some sub
  indexed : r.Indexed → r'.Indexed

theorem Shrinks.refl (r : Registry) : Shrinks r r :=
  ⟨rfl, rfl, rfl, fun _ _ h => h, fun h => h⟩

theorem Shrinks.trans (h₁ : Shrinks r r') (h₂ : Shrinks r' r'') : Shrinks r r'' where
  circuits_eq := h₂.circuits_eq.trans h₁.circuits_eq
  cap_eq := h₂.cap_eq.trans h₁.cap_eq
  perLinkCap_eq := h₂.perLinkCap_eq.trans h₁.perLinkCap_eq
  lookup_of cookie sub h := h₁.lookup_of cookie sub (h₂.lookup_of cookie sub h)
  indexed h := h₂.indexed (h₁.indexed h)

theorem remove_of_lookup (hsub : r.subs.lookup cookie = some sub) :
    r.remove cookie = ({ r with
      subs := r.subs.erase cookie
      perLink := r.perLink.unbucket (r.linkOf sub) cookie }, some sub) := by
  rw [remove, hsub]

theorem Shrinks.remove (r : Registry) (cookie : Cookie) : Shrinks r (r.remove cookie).1 := by
  rcases hsub : r.subs.lookup cookie with _ | sub
  · rw [Registry.remove, hsub]
    exact .refl r
  rw [remove_of_lookup hsub]
  refine ⟨rfl, rfl, rfl, fun _ _ h => (lookup_erase_eq_some h).2, fun hindex => ?_⟩
  refine .unbucket hindex (r.linkOf sub) cookie fun link cookie' => ?_
  constructor
  · rintro ⟨sub', hsub', rfl⟩
    obtain ⟨hne, hold⟩ := lookup_erase_eq_some hsub'
    exact ⟨⟨sub', hold, rfl⟩, fun heq => hne heq.2⟩
  · rintro ⟨⟨sub', hsub', rfl⟩, hne⟩
    refine ⟨sub', (AList.lookup_erase_ne fun heq => hne ?_).trans hsub', rfl⟩
    obtain rfl : sub = sub' := some.inj (hsub.symm.trans (heq ▸ hsub'))
    exact ⟨rfl, heq⟩

theorem lookup_remove (r : Registry) (cookie cookie' : Cookie) :
    (r.remove cookie).1.subs.lookup cookie' =
      if cookie' = cookie then none else r.subs.lookup cookie' := by
  rcases hsub : r.subs.lookup cookie with _ | sub
  · rw [remove, hsub]
    rcases eq_or_ne cookie' cookie with rfl | hne
    · exact hsub.trans (if_pos rfl).symm
    · exact (if_neg hne).symm
  · rw [remove_of_lookup hsub]
    exact lookup_erase_eq_ite ..

theorem Shrinks.removeAll (r : Registry) (cookies : List Cookie) :
    Shrinks r (r.removeAll cookies) := by
  induction cookies generalizing r with
  | nil => exact .refl r
  | cons cookie cookies ih => exact (Shrinks.remove r cookie).trans (ih (r.remove cookie).1)

section

variable (hs : Shrinks r r')

include hs

theorem Shrinks.size_le : r'.subs.size ≤ r.subs.size :=
  size_le_of_lookup hs.lookup_of

theorem Shrinks.linkOf_eq (sub : Subscription) : r'.linkOf sub = r.linkOf sub := by
  rw [linkOf, hs.circuits_eq, linkOf]

theorem Shrinks.heldOn (hheld : r'.HeldOn link cookie) : r.HeldOn link cookie := by
  obtain ⟨sub, hsub, hlink⟩ := hheld
  exact ⟨sub, hs.lookup_of cookie sub hsub, hs.linkOf_eq sub ▸ hlink⟩

theorem Shrinks.bucketLen_le (hindex : r.Indexed) (link : Link) :
    r'.bucketLen link ≤ r.bucketLen link :=
  hindex.length_le (hs.indexed hindex) fun _ => hs.heldOn

/-- A cookie that left makes room in its bucket. -/
theorem Shrinks.bucketLen_lt (hindex : r.Indexed) (hmem : cookie ∈ r.perLink.bucket link)
    (hgone : r'.subs.lookup cookie = none) : r'.bucketLen link < r.bucketLen link := by
  refine hindex.length_lt (hs.indexed hindex) (fun _ => hs.heldOn)
    ((hindex.mem_iff link cookie).mp hmem) ?_
  rintro ⟨sub, hsub, -⟩
  cases hgone.symm.trans hsub

end

/-! ### Room for a link -/

theorem mem_bucket_of_victim (hv : r.victim link = some cookie) :
    cookie ∈ r.perLink.bucket link := by
  rw [victim, or_eq_some_iff] at hv
  rcases hv with hv | ⟨-, hv⟩
  · exact (mem_filter.mp (argmin_mem hv)).1
  · exact argmin_mem hv

theorem victim_ne_none (hne : r.perLink.bucket link ≠ []) : r.victim link ≠ none := by
  intro hv
  rw [victim, or_eq_none_iff] at hv
  exact hne (argmin_eq_none.mp hv.2)

theorem Shrinks.makeRoomForLink (r : Registry) (link : Link) :
    Shrinks r (r.makeRoomForLink link).1 := by
  rw [Registry.makeRoomForLink]
  split
  · exact .refl r
  · split
    · exact .refl r
    · exact .remove r _

theorem makeRoom_eq (r : Registry) (link : Link) : ∃ n,
    r.makeRoom link = { (r.makeRoomForLink link).1 with overLinkCapEvictions := n } := by
  rw [makeRoom]
  split <;> exact ⟨_, rfl⟩

theorem Shrinks.makeRoom (r : Registry) (link : Link) : Shrinks r (r.makeRoom link) := by
  obtain ⟨n, hn⟩ := makeRoom_eq r link
  rw [hn]
  exact (Shrinks.makeRoomForLink r link).trans
    ⟨rfl, rfl, rfl, fun _ _ h => h, fun h => h⟩

/-- **A link at its ceiling gets one slot.** -/
theorem bucketLen_makeRoom_lt (hindex : r.Indexed) (hpos : 1 ≤ r.perLinkCap)
    (hcap : r.bucketLen link ≤ r.perLinkCap) :
    (r.makeRoom link).bucketLen link < r.perLinkCap := by
  obtain ⟨n, hn⟩ := makeRoom_eq r link
  rw [hn]
  rw [makeRoomForLink]
  split
  · assumption
  next hfull =>
    have hne : r.perLink.bucket link ≠ [] := by
      intro hnil
      rw [bucketLen, hnil, length_nil] at hfull
      omega
    rcases hv : r.victim link with _ | cookie
    · exact absurd hv (victim_ne_none hne)
    · exact lt_of_lt_of_le ((Shrinks.remove r cookie).bucketLen_lt hindex
        (mem_bucket_of_victim hv) ((lookup_remove r cookie cookie).trans (if_pos rfl))) hcap

/-! ### Circuits that change -/

variable {f : CircuitState → CircuitState}

theorem linkOf_modify (hf : ∀ c, (f c).prevLink = c.prevLink)
    (circuit : ℕ) (sub : Subscription) : (r.modify circuit f).linkOf sub = r.linkOf sub := by
  change (update r.circuits circuit (f (r.circuits circuit)) sub.circuit).prevLink =
    (r.circuits sub.circuit).prevLink
  rcases eq_or_ne sub.circuit circuit with heq | hne
  · rw [heq, update_self, hf]
  · rw [update_of_ne hne]

theorem Indexed.modify (hindex : r.Indexed)
    (hf : ∀ c, (f c).prevLink = c.prevLink) (circuit : ℕ) : (r.modify circuit f).Indexed := by
  refine .congr hindex fun link cookie => exists_congr fun sub => ?_
  rw [linkOf_modify hf]
  rfl

/-! ### A cookie is bound -/

theorem prevLink_setRegisteredCookie (cookie : Cookie) (c : CircuitState) :
    (CircuitState.setRegisteredCookie cookie c).prevLink = c.prevLink := rfl

variable (r sub p circuit now) in
theorem linkOf_bind : (r.bind p circuit now).linkOf sub = r.linkOf sub :=
  linkOf_modify (prevLink_setRegisteredCookie p.cookie) circuit sub

variable (r cookie cookie' sub) in
theorem subs_lookup_insert :
    (r.insert cookie sub).subs.lookup cookie' =
      if cookie' = cookie then some sub else r.subs.lookup cookie' :=
  lookup_insert_eq_ite ..

variable (r cookie p circuit now) in
theorem lookup_bind : (r.bind p circuit now).subs.lookup cookie =
      if cookie = p.cookie then some ⟨p.regPk, circuit, now, p.epoch⟩
      else r.subs.lookup cookie := by
  rw [bind, subs_lookup_insert]
  rfl

/-- The buckets after a cookie was bound, in terms of those before. -/
theorem perLink_insert_of_lookup (hsub : r.subs.lookup cookie = some sub') :
    (r.insert cookie sub).perLink = if r.linkOf sub' = r.linkOf sub then r.perLink
      else (r.perLink.unbucket (r.linkOf sub') cookie).push (r.linkOf sub) cookie := by
  rw [Registry.insert]
  rw [rebucket, hsub]

theorem perLink_insert_of_lookup_eq_none (hsub : r.subs.lookup cookie = none) :
    (r.insert cookie sub).perLink = r.perLink.push (r.linkOf sub) cookie := by
  rw [Registry.insert]
  rw [rebucket, hsub]

theorem heldOn_insert (link : Link) (cookie' : Cookie) :
    (r.insert cookie sub).HeldOn link cookie' ↔
      (cookie' = cookie ∧ link = r.linkOf sub) ∨ (cookie' ≠ cookie ∧ r.HeldOn link cookie') := by
  rw [HeldOn, subs_lookup_insert]
  rcases eq_or_ne cookie' cookie with heq | hne
  · rw [if_pos heq]
    constructor
    · rintro ⟨sub', hsub', rfl⟩
      cases hsub'
      exact .inl ⟨heq, rfl⟩
    · rintro (⟨-, rfl⟩ | ⟨hne, -⟩)
      · exact ⟨sub, rfl, rfl⟩
      · exact absurd heq hne
  · rw [if_neg hne]
    exact ⟨fun h => .inr ⟨hne, h⟩, fun h => (h.resolve_left fun h => hne h.1).2⟩

theorem Indexed.insert (hindex : r.Indexed) (cookie : Cookie) (sub : Subscription) :
    (r.insert cookie sub).Indexed := by
  rcases hsub : r.subs.lookup cookie with _ | sub'
  · -- a new cookie enters the bucket of its link
    rw [Indexed, perLink_insert_of_lookup_eq_none hsub]
    have hnew : ∀ link, ¬r.HeldOn link cookie := by
      rintro link ⟨sub', hsub', -⟩
      rw [hsub] at hsub'
      cases hsub'
    refine .push hindex (hnew _) fun link cookie' => ?_
    rw [heldOn_insert]
    rcases eq_or_ne cookie' cookie with rfl | hne
    · simp [hnew]
    · simp [hne]
  · have hheld : ∀ link, r.HeldOn link cookie ↔ link = r.linkOf sub' := by
      intro link
      refine ⟨?_, fun heq => ⟨sub', hsub, heq.symm⟩⟩
      rintro ⟨sub'', hsub'', rfl⟩
      rw [some.inj (hsub.symm.trans hsub'')]
    rw [Indexed, perLink_insert_of_lookup hsub]
    split
    next heq =>
      refine .congr hindex fun link cookie' => ?_
      rw [heldOn_insert]
      rcases eq_or_ne cookie' cookie with rfl | hne
      · simp [hheld, heq]
      · simp [hne]
    next hne =>
      -- out of the old bucket, then into the new one
      have hout := Buckets.Index.unbucket (Q := fun link cookie' =>
        r.HeldOn link cookie' ∧ cookie' ≠ cookie) hindex (r.linkOf sub') cookie
        fun link cookie' => by
          refine and_congr_right fun hlink => not_congr ⟨fun heq => ⟨?_, heq⟩, fun heq => heq.2⟩
          exact (hheld link).mp (heq ▸ hlink)
      refine .push hout (fun h => h.2 rfl) fun link cookie' => ?_
      rw [heldOn_insert]
      tauto

variable (p circuit now) in
theorem Indexed.bind (hindex : r.Indexed) :
    (r.bind p circuit now).Indexed :=
  (hindex.modify (prevLink_setRegisteredCookie p.cookie) circuit).insert p.cookie _

/-- Bound on its own link, a cookie leaves the buckets as they are. -/
theorem bucketLen_bind_of_same_link (hsub : r.subs.lookup p.cookie = some sub)
    (hlink : r.linkOf sub = (r.circuits circuit).prevLink) (link : Link) :
    (r.bind p circuit now).bucketLen link = r.bucketLen link := by
  have hmodify : (r.modify circuit (.setRegisteredCookie p.cookie)).subs.lookup
      p.cookie = some sub := hsub
  rw [bucketLen, bind, perLink_insert_of_lookup hmodify, if_pos]
  · rfl
  · rw [linkOf_modify (prevLink_setRegisteredCookie p.cookie),
      linkOf_modify (prevLink_setRegisteredCookie p.cookie), hlink, linkOf]

/-- In every case, only the bucket of its new link grows, and by one. -/
theorem bucketLen_bind_le (hindex : r.Indexed) (link : Link) :
    (r.bind p circuit now).bucketLen link ≤ r.bucketLen link +
      if link = (r.circuits circuit).prevLink then 1 else 0 := by
  have hheld := (hindex.bind p circuit now).mem_iff link
  have hsubset : (r.bind p circuit now).perLink.bucket link ⊆
      if link = (r.circuits circuit).prevLink then p.cookie :: r.perLink.bucket link
      else r.perLink.bucket link := by
    intro cookie hmem
    obtain ⟨sub, hsub, hlink⟩ := (hheld cookie).mp hmem
    rw [linkOf_bind] at hlink
    rw [lookup_bind] at hsub
    split at hsub
    next heq =>
      cases hsub
      have hlink' : link = (r.circuits circuit).prevLink := hlink.symm
      rw [if_pos hlink', heq]
      exact mem_cons_self
    · have hold : cookie ∈ r.perLink.bucket link :=
        (hindex.mem_iff link cookie).mpr ⟨sub, hsub, hlink⟩
      split
      · exact mem_cons_of_mem _ hold
      · exact hold
  refine (subperm_of_subset ((hindex.bind p circuit now).nodup link) hsubset).length_le.trans ?_
  split <;> exact le_refl _

/-! ### Registrations -/

/-- The ways a registration may end. -/
theorem register_cases {res : Except RegisterError Unit}
    (hreg : r.register S p circuit now = (r', res)) :
    (∃ e, res = .error e ∧ r' = r) ∨
    (res = .ok () ∧ p.verify S = true ∧ S.cookieForRegPk p.regPk = p.cookie ∧
      ((∃ sub, r.subs.lookup p.cookie = some sub ∧ sub.regPk = p.regPk ∧ sub.epoch < p.epoch ∧
          r' = r.bind p circuit now) ∨
        (r.subs.lookup p.cookie = none ∧ r.subs.size < r.cap ∧
          r' = (r.makeRoom (r.circuits circuit).prevLink).bind p circuit now))) := by
  have hrefused {e : RegisterError} (h : (r, Except.error e) = (r', res)) :
      ∃ e, res = .error e ∧ r' = r := by
    cases h
    exact ⟨e, rfl, rfl⟩
  rw [register] at hreg
  split at hreg
  · exact .inl (hrefused hreg)
  rename_i hverify
  split at hreg
  · exact .inl (hrefused hreg)
  rename_i hbound
  have hverify' : p.verify S = true := not_not.mp hverify
  have hbound' : S.cookieForRegPk p.regPk = p.cookie := (not_not.mp hbound).symm
  split at hreg
  next sub hsub =>
    split at hreg
    · exact .inl (hrefused hreg)
    rename_i hkey
    split at hreg
    · exact .inl (hrefused hreg)
    next hepoch =>
      cases hreg
      exact .inr ⟨rfl, hverify', hbound', .inl
        ⟨sub, hsub, not_not.mp hkey, UInt64.not_le.mp hepoch, rfl⟩⟩
  next hsub =>
    split at hreg
    · exact .inl (hrefused hreg)
    next hfull =>
      cases hreg
      exact .inr ⟨rfl, hverify', hbound', .inr ⟨hsub, Nat.lt_of_not_le hfull, rfl⟩⟩

/-! ### What every run keeps -/

/-- What holds in every state of every run of a registry that started as `r₀`. -/
structure Good (r₀ r : Registry) : Prop where
  indexed : r.Indexed
  cap_eq : r.cap = r₀.cap
  perLinkCap_eq : r.perLinkCap = r₀.perLinkCap
  size_le : r.subs.size ≤ r.cap

variable {r₀ : Registry}

theorem Shrinks.good (hs : Shrinks r r') (hgood : Good r₀ r) : Good r₀ r' where
  indexed := hs.indexed hgood.indexed
  cap_eq := hs.cap_eq.trans hgood.cap_eq
  perLinkCap_eq := hs.perLinkCap_eq.trans hgood.perLinkCap_eq
  size_le := by
    rw [hs.cap_eq]
    exact le_trans hs.size_le hgood.size_le

theorem Good.withLinkCap (circuits : ℕ → CircuitState) (cap perLinkCap ttlSecs : ℕ) :
    Good (withLinkCap circuits cap perLinkCap ttlSecs)
      (withLinkCap circuits cap perLinkCap ttlSecs) where
  indexed := Buckets.Index.empty fun link cookie => by
    rintro ⟨sub, hsub, -⟩
    cases hsub
  cap_eq := rfl
  perLinkCap_eq := rfl
  size_le := Nat.zero_le _

theorem Good.modify (hgood : Good r₀ r)
    (hf : ∀ c, (f c).prevLink = c.prevLink) (circuit : ℕ) : Good r₀ (r.modify circuit f) :=
  ⟨hgood.indexed.modify hf circuit, hgood.cap_eq, hgood.perLinkCap_eq, hgood.size_le⟩

theorem lookup_makeRoom_eq_none (hsub : r.subs.lookup cookie = none) (link : Link) :
    (r.makeRoom link).subs.lookup cookie = none := by
  refine eq_none_iff_forall_ne_some.mpr fun sub hsub' => ?_
  rw [(Shrinks.makeRoom r link).lookup_of cookie sub hsub'] at hsub
  cases hsub

variable (p circuit now) in
theorem Good.register (hgood : Good r₀ r) : Good r₀ (r.register S p circuit now).1 := by
  rcases hreg : r.register S p circuit now with ⟨r', res⟩
  rcases register_cases hreg with ⟨e, -, rfl⟩ | ⟨-, -, -, ⟨sub, hsub, -, -, rfl⟩ |
    ⟨hsub, hsize, rfl⟩⟩
  · exact hgood
  · refine ⟨hgood.indexed.bind p circuit now, hgood.cap_eq, hgood.perLinkCap_eq, ?_⟩
    exact (size_insert_of_lookup_eq_some hsub _).trans_le hgood.size_le
  · have hs := Shrinks.makeRoom r (r.circuits circuit).prevLink
    have hgood' := hs.good hgood
    refine ⟨hgood'.indexed.bind p circuit now, hgood'.cap_eq, hgood'.perLinkCap_eq, ?_⟩
    refine (size_insert_of_lookup_eq_none (lookup_makeRoom_eq_none hsub _) _).trans_le ?_
    refine le_trans (Nat.succ_le_succ hs.size_le) ?_
    exact hs.cap_eq.symm ▸ hsize

variable (r cookie circuit) in
theorem Shrinks.removeIfCurrent :
    Shrinks r (r.removeIfCurrent cookie circuit).1 := by
  rw [Registry.removeIfCurrent]
  split
  · exact .remove r cookie
  · exact .refl r

theorem Good.step (hgood : Good r₀ r) (op : Op) : Good r₀ (r.step S op) := by
  cases op with
  | register => exact hgood.register ..
  | removeIfCurrent cookie circuit => exact (Shrinks.removeIfCurrent r cookie circuit).good hgood
  | gc now => exact (Shrinks.removeAll r _).good hgood
  | touch circuit now => exact hgood.modify (fun _ => rfl : ∀ c : CircuitState,
      (CircuitState.touch now c).prevLink = c.prevLink) circuit
  | markServed circuit now => exact hgood.modify (fun _ => rfl : ∀ c : CircuitState,
      (CircuitState.markServed now c).prevLink = c.prevLink) circuit

/-- **A teardown removes a subscription only if it still points at that very circuit.** -/
theorem lookup_removeIfCurrent (hsub : r.subs.lookup cookie' = some sub)
    (hgone : (r.removeIfCurrent cookie circuit).1.subs.lookup cookie' ≠ some sub) :
    cookie' = cookie ∧ sub.circuit = circuit := by
  rw [removeIfCurrent] at hgone
  split at hgone
  next hcurrent =>
    rcases eq_or_ne cookie' cookie with rfl | hne
    · rw [hsub, any_some, decide_eq_true_eq] at hcurrent
      exact ⟨rfl, hcurrent⟩
    · exact absurd ((lookup_remove ..).trans ((if_neg hne).trans hsub)) hgone
  · exact absurd hsub hgone

/-! ### The last accepted registration -/

/-- The last registration of a cookie in a log. -/
def latest (log : List (CircuitRegisterPayload × ℕ)) (cookie : Cookie) :
    Option (CircuitRegisterPayload × ℕ) :=
  (log.filter fun a => a.1.cookie = cookie).getLast?

/-- **A held cookie is bound by the last accepted registration**, and every accepted one was
signed by a key that its cookie is derived from. -/
structure Logged (S : RegisterCrypto) (r : Registry)
    (log : List (CircuitRegisterPayload × ℕ)) : Prop where
  bound : ∀ a ∈ log, a.1.verify S = true ∧ S.cookieForRegPk a.1.regPk = a.1.cookie
  latest : ∀ cookie sub, r.subs.lookup cookie = some sub → ∃ p,
    latest log cookie = some (p, sub.circuit) ∧ sub.regPk = p.regPk ∧ sub.epoch = p.epoch

variable {log : List (CircuitRegisterPayload × ℕ)}

theorem Shrinks.logged (hs : Shrinks r r') (hlog : Logged S r log) : Logged S r' log :=
  ⟨hlog.bound, fun cookie sub hsub => hlog.latest cookie sub (hs.lookup_of cookie sub hsub)⟩

theorem Logged.bind (hlog : Logged S r log) (hverify : p.verify S = true)
    (hbound : S.cookieForRegPk p.regPk = p.cookie) :
    Logged S (r.bind p circuit now) (log ++ [(p, circuit)]) where
  bound a ha := by
    rcases mem_append.mp ha with ha | ha
    · exact hlog.bound a ha
    · rw [mem_singleton.mp ha]
      exact ⟨hverify, hbound⟩
  latest cookie sub hsub := by
    rw [lookup_bind] at hsub
    rw [Registry.latest, filter_append]
    split at hsub
    next heq =>
      cases hsub
      exact ⟨p, by simp [heq], rfl, rfl⟩
    next hne =>
      have hother : [(p, circuit)].filter (fun a => a.1.cookie = cookie) = [] := by
        simp [Ne.symm hne]
      rw [hother, append_nil]
      exact hlog.latest cookie sub hsub

theorem Logged.step (hlog : Logged S r log) (op : Op) :
    Logged S (r.step S op) (log ++ r.accepted S op) := by
  have hquiet {r' : Registry} (h : Logged S r' log) : Logged S r' (log ++ []) := by
    rwa [append_nil]
  cases op with
  | register p circuit now =>
    rw [Registry.step]
    rcases hreg : r.register S p circuit now with ⟨r', res⟩
    have hres : (r.register S p circuit now).2 = res := by rw [hreg]
    rcases register_cases hreg with ⟨e, rfl, rfl⟩ | ⟨rfl, hverify, hbound, hcases⟩
    · rw [accepted, hres]
      exact hquiet hlog
    · rw [accepted, hres]
      rcases hcases with ⟨sub, -, -, -, rfl⟩ | ⟨-, -, rfl⟩
      · exact hlog.bind hverify hbound
      · exact ((Shrinks.makeRoom r _).logged hlog).bind hverify hbound
  | removeIfCurrent cookie circuit =>
    exact hquiet ((Shrinks.removeIfCurrent r cookie circuit).logged hlog)
  | gc now => exact hquiet ((Shrinks.removeAll r _).logged hlog)
  | touch | markServed => exact hquiet ⟨hlog.bound, hlog.latest⟩

/-! ### Epochs -/

/-- The epochs of a cookie's registrations. -/
def epochs (log : List (CircuitRegisterPayload × ℕ)) (cookie : Cookie) : List UInt64 :=
  (log.filter fun a => a.1.cookie = cookie).map fun a => a.1.epoch

theorem epochs_append (log log' : List (CircuitRegisterPayload × ℕ)) (cookie : Cookie) :
    epochs (log ++ log') cookie = epochs log cookie ++ epochs log' cookie := by
  rw [epochs, filter_append, map_append, epochs, epochs]

/-- What one step does to the epoch of a held cookie: it accepts nothing for it and leaves the
epoch, or it accepts a later epoch. -/
theorem epochs_step (hsub : r.subs.lookup cookie = some sub) (op : Op) :
    (epochs (r.accepted S op) cookie = [] ∧
      ∀ sub', (r.step S op).subs.lookup cookie = some sub' → sub'.epoch = sub.epoch) ∨
    ∃ sub', epochs (r.accepted S op) cookie = [sub'.epoch] ∧ sub.epoch < sub'.epoch ∧
      (r.step S op).subs.lookup cookie = some sub' := by
  have hshrinks : ∀ r', Shrinks r r' → ∀ sub', r'.subs.lookup cookie = some sub' →
      sub'.epoch = sub.epoch := by
    intro r' hs sub' hsub'
    rw [some.inj (hsub.symm.trans (hs.lookup_of cookie sub' hsub'))]
  have hkept : ∀ sub', r.subs.lookup cookie = some sub' → sub'.epoch = sub.epoch :=
    hshrinks r (.refl r)
  cases op with
  | register p circuit now =>
    rw [Registry.step]
    rcases hreg : r.register S p circuit now with ⟨r', res⟩
    have hres : (r.register S p circuit now).2 = res := by rw [hreg]
    rcases register_cases hreg with ⟨e, rfl, rfl⟩ | ⟨rfl, -, -, hcases⟩
    · rw [accepted, hres]
      exact .inl ⟨rfl, hkept⟩
    rw [accepted, hres]
    rcases eq_or_ne cookie p.cookie with rfl | hne
    · rcases hcases with ⟨sub₀, hsub₀, -, hepoch, rfl⟩ | ⟨hnone, -⟩
      · obtain rfl := some.inj (hsub.symm.trans hsub₀)
        refine .inr ⟨⟨p.regPk, circuit, now, p.epoch⟩, by simp [epochs], hepoch, ?_⟩
        exact (lookup_bind ..).trans (if_pos rfl)
      · rw [hsub] at hnone
        cases hnone
    · have hother : epochs [(p, circuit)] cookie = [] := by simp [epochs, hne.symm]
      refine .inl ⟨hother, ?_⟩
      rcases hcases with ⟨-, -, -, -, rfl⟩ | ⟨-, -, rfl⟩
      · intro sub' hsub'
        rw [lookup_bind, if_neg hne] at hsub'
        exact hkept sub' hsub'
      · intro sub' hsub'
        rw [lookup_bind, if_neg hne] at hsub'
        exact hshrinks _ (.makeRoom r _) sub' hsub'
  | removeIfCurrent cookie' circuit =>
    exact .inl ⟨rfl, hshrinks _ (.removeIfCurrent r cookie' circuit)⟩
  | gc now => exact .inl ⟨rfl, hshrinks _ (.removeAll r _)⟩
  | touch | markServed => exact .inl ⟨rfl, hkept⟩

/-- A cookie is held. -/
def held (r : Registry) (cookie : Cookie) : Bool := (r.subs.lookup cookie).isSome

/-- **While a cookie stays held, its accepted epochs strictly increase.** -/
theorem pairwise_epochs (hsub : r.subs.lookup cookie = some sub) {ops : List Op}
    (hheld : Run.Along (step S) (fun r _ => r.held cookie = true) r ops) :
    (sub.epoch :: epochs (Run.outputs (step S) (accepted S) r ops) cookie).Pairwise (· < ·) := by
  induction ops generalizing r sub with
  | nil => exact pairwise_singleton _ _
  | cons op ops ih =>
    rw [Run.outputs, epochs_append]
    rcases epochs_step (S := S) hsub op with ⟨hnil, hkept⟩ | ⟨sub', hone, hlt, hsub'⟩
    · rw [hnil]
      rcases hsub' : (r.step S op).subs.lookup cookie with _ | sub'
      · -- the cookie was given up, and the run is over
        cases ops with
        | nil => exact pairwise_singleton _ _
        | cons op' ops =>
          have hheld' : ((r.step S op).subs.lookup cookie).isSome = true := hheld.2.1
          rw [hsub'] at hheld'
          cases hheld'
      · rw [← hkept sub' hsub']
        exact ih hsub' hheld.2
    · rw [hone]
      have hrest := ih hsub' hheld.2
      refine pairwise_cons.mpr ⟨fun e he => ?_, hrest⟩
      rcases mem_cons.mp he with rfl | he
      · exact hlt
      · exact UInt64.lt_trans hlt ((pairwise_cons.mp hrest).1 e he)

/-! ### The ceiling of a link -/

/-- No link has more cookies than its ceiling. -/
def LinkCapped (r : Registry) : Prop := ∀ link, r.bucketLen link ≤ r.perLinkCap

/-- **A refresh that stays on its link or finds room on the new one.** -/
def Roomy (r : Registry) : Op → Prop
  | .register p circuit _ => (r.subs.lookup p.cookie).all (fun sub =>
      r.linkOf sub = (r.circuits circuit).prevLink ||
        r.bucketLen (r.circuits circuit).prevLink < r.perLinkCap) = true
  | _ => True

instance decidableRoomy (r : Registry) (op : Op) : Decidable (r.Roomy op) := by
  cases op <;> unfold Roomy <;> infer_instance

theorem Shrinks.linkCapped (hs : Shrinks r r') (hindex : r.Indexed) (hcap : r.LinkCapped) :
    r'.LinkCapped := by
  intro link
  rw [hs.perLinkCap_eq]
  exact le_trans (hs.bucketLen_le hindex link) (hcap link)

/-- Binding a cookie on a link with room keeps the ceilings. -/
theorem LinkCapped.bind (hcap : r.LinkCapped) (hindex : r.Indexed)
    (hroom : r.bucketLen (r.circuits circuit).prevLink < r.perLinkCap) :
    (r.bind p circuit now).LinkCapped := by
  intro link
  refine le_trans (bucketLen_bind_le hindex link) ?_
  split
  next heq => exact heq ▸ hroom
  · exact hcap link

theorem LinkCapped.step (hcap : r.LinkCapped) (hgood : Good r₀ r)
    (hpos : 1 ≤ r₀.perLinkCap) {op : Op} (hroomy : r.Roomy op) : (r.step S op).LinkCapped := by
  cases op with
  | register p circuit now =>
    rw [Registry.step]
    rcases hreg : r.register S p circuit now with ⟨r', res⟩
    rcases register_cases hreg with ⟨e, -, rfl⟩ | ⟨-, -, -, ⟨sub, hsub, -, -, rfl⟩ |
      ⟨hsub, -, rfl⟩⟩
    · exact hcap
    · rw [Roomy, hsub, all_some, Bool.or_eq_true, decide_eq_true_eq,
        decide_eq_true_eq] at hroomy
      rcases hroomy with hsame | hroom
      · intro link
        rw [bucketLen_bind_of_same_link hsub hsame]
        exact hcap link
      · exact hcap.bind hgood.indexed hroom
    · have hs := Shrinks.makeRoom r (r.circuits circuit).prevLink
      refine (hs.linkCapped hgood.indexed hcap).bind (hs.indexed hgood.indexed) ?_
      rw [hs.circuits_eq, hs.perLinkCap_eq]
      exact bucketLen_makeRoom_lt hgood.indexed (hgood.perLinkCap_eq ▸ hpos) (hcap _)
  | removeIfCurrent cookie circuit =>
    exact (Shrinks.removeIfCurrent r cookie circuit).linkCapped hgood.indexed hcap
  | gc now => exact (Shrinks.removeAll r _).linkCapped hgood.indexed hcap
  | touch | markServed => exact hcap

/-! ### The main result -/

/-- **In a run whose refreshes find room**, with signatures that are not forged and without
collisions among the cookies of the accepted keys: a held cookie is bound to the circuit of its
last accepted registration, which the key of that cookie signed; epochs increase while it is held;
the buckets list the held cookies; both caps hold; and a teardown removes only what points at its
circuit. -/
theorem roomy_run_keeps_subscriptions (S : RegisterCrypto)
    (signed : FixedBytes 32 → List UInt8 → Prop)
    (hsigned : ∀ pk message signature, S.verifyMessage pk message signature = true →
      signed pk message)
    (circuits : ℕ → CircuitState) (cap perLinkCap ttlSecs : ℕ) (ops : List Op)
    (hinj : ∀ a ∈ Run.outputs (step S) (accepted S)
        (withLinkCap circuits cap perLinkCap ttlSecs) ops,
      ∀ b ∈ Run.outputs (step S) (accepted S) (withLinkCap circuits cap perLinkCap ttlSecs) ops,
        S.cookieForRegPk a.1.regPk = S.cookieForRegPk b.1.regPk → a.1.regPk = b.1.regPk)
    (hroomy : Run.Along (step S) Roomy (withLinkCap circuits cap perLinkCap ttlSecs) ops) :
    ∃ r log, r = ops.foldl (step S) (withLinkCap circuits cap perLinkCap ttlSecs) ∧
      log = Run.outputs (step S) (accepted S) (withLinkCap circuits cap perLinkCap ttlSecs) ops ∧
      (∀ cookie sub, r.subs.lookup cookie = some sub → ∃ p,
        latest log cookie = some (p, sub.circuit) ∧ sub.epoch = p.epoch ∧
        S.cookieForRegPk p.regPk = cookie ∧
        signed p.regPk (CircuitRegisterPayload.signingBytes cookie p.regPk p.epoch) ∧
        ∀ a ∈ log, a.1.cookie = cookie → a.1.regPk = p.regPk) ∧
      (∀ cookie sub ops', r.subs.lookup cookie = some sub →
        Run.Along (step S) (fun r _ => r.held cookie = true) r ops' →
        (sub.epoch :: epochs (Run.outputs (step S) (accepted S) r ops') cookie).Pairwise
          (· < ·)) ∧
      r.Indexed ∧ r.subs.size ≤ (withLinkCap circuits cap perLinkCap ttlSecs).cap ∧
      (∀ link, r.bucketLen link ≤ (withLinkCap circuits cap perLinkCap ttlSecs).perLinkCap) ∧
      ∀ cookie circuit cookie' sub, r.subs.lookup cookie' = some sub →
        (r.removeIfCurrent cookie circuit).1.subs.lookup cookie' ≠ some sub →
          cookie' = cookie ∧ sub.circuit = circuit := by
  have hpos : 1 ≤ (withLinkCap circuits cap perLinkCap ttlSecs).perLinkCap :=
    le_max_right perLinkCap 1
  have hstart := Good.withLinkCap circuits cap perLinkCap ttlSecs
  have hlog : Logged S (ops.foldl (step S) (withLinkCap circuits cap perLinkCap ttlSecs))
      (Run.outputs (step S) (accepted S) (withLinkCap circuits cap perLinkCap ttlSecs) ops) := by
    have hempty : Logged S (withLinkCap circuits cap perLinkCap ttlSecs) [] := by
      refine ⟨nofun, fun cookie sub hsub => ?_⟩
      cases hsub
    exact Run.invariant_outputs (fun r op log hlog => hlog.step op) hempty ops
  have hrun := Run.invariant_along
    (P := fun r => Good (withLinkCap circuits cap perLinkCap ttlSecs) r ∧ r.LinkCapped)
    (fun r op hop ⟨hgood, hcap⟩ => ⟨hgood.step op, hcap.step hgood hpos hop⟩)
    ⟨hstart, fun link => Nat.zero_le _⟩ hroomy
  refine ⟨_, _, rfl, rfl, ?_, fun cookie sub ops' hsub hheld => pairwise_epochs hsub hheld,
    hrun.1.indexed, hrun.1.cap_eq ▸ hrun.1.size_le, fun link => hrun.1.perLinkCap_eq ▸ hrun.2 link,
    fun cookie circuit cookie' sub => lookup_removeIfCurrent⟩
  intro cookie sub hsub
  obtain ⟨p, hlatest, -, hepoch⟩ := hlog.latest cookie sub hsub
  obtain ⟨hmem, hcookie⟩ := mem_filter.mp (mem_of_getLast? hlatest)
  obtain rfl : p.cookie = cookie := of_decide_eq_true hcookie
  obtain ⟨hverify, hbound⟩ := hlog.bound _ hmem
  refine ⟨p, hlatest, hepoch, hbound, hsigned _ _ _ hverify, fun a ha hacookie => ?_⟩
  refine hinj a ha _ hmem ?_
  rw [(hlog.bound a ha).2, hacookie, hbound]

/-! ### Two cookies and two links -/

/-- Cookies are the first half of their key, and a signature spells out what it signs. -/
def sampleCrypto : RegisterCrypto where
  verifyMessage pk message signature := signature = pk.1 ++ message
  cookieForRegPk pk := ⟨pk.1.take 16, by rw [List.length_take, pk.2]; rfl⟩

/-- Circuit 0 arrived on link 1, the others on link 2. -/
def sampleCircuits (h : ℕ) : CircuitState :=
  .fromInstall ⟨0, 0, .replicate 32 0, .legacy⟩
    (.replicate 32 (if h = 0 then 1 else 2)) none 0

/-- A registration by the key `n`. -/
def samplePayload (n : UInt8) (epoch : UInt64) : CircuitRegisterPayload where
  cookie := .replicate 16 n
  regPk := .replicate 32 n
  epoch := epoch
  signature := (FixedBytes.replicate 32 n).1 ++
    CircuitRegisterPayload.signingBytes (.replicate 16 n) (.replicate 32 n) epoch

/-- Two cookies, each on its link, and a refresh of the first on its own. -/
def sampleOps : List Op :=
  [.register (samplePayload 1 1) 0 0, .register (samplePayload 2 1) 1 0,
    .register (samplePayload 1 2) 0 5]

theorem roomy_run_keeps_subscriptions_sample : ∃ r,
    r = sampleOps.foldl (step sampleCrypto) (withLinkCap sampleCircuits 10 1 600) ∧
    r.Indexed ∧ ∀ link, r.bucketLen link ≤ 1 := by
  obtain ⟨r, -, hr, -, -, -, hindex, -, hlink, -⟩ := roomy_run_keeps_subscriptions sampleCrypto
    (fun pk message => ∃ signature, sampleCrypto.verifyMessage pk message signature = true)
    (fun pk message signature h => ⟨signature, h⟩) sampleCircuits 10 1 600 sampleOps
    (by decide +kernel) (by decide +kernel)
  exact ⟨r, hr, hindex, hlink⟩

/-- **A refresh over another link takes that link past its ceiling.** -/
theorem refresh_exceeds_link_cap : ∃ r,
    r = [Op.register (samplePayload 1 1) 0 0, .register (samplePayload 2 1) 1 0,
      .register (samplePayload 1 2) 2 5].foldl (step sampleCrypto)
        (withLinkCap sampleCircuits 10 1 600) ∧
    r.perLinkCap = 1 ∧ r.bucketLen (.replicate 32 2) = 2 := by
  refine ⟨_, rfl, ?_, ?_⟩
  · decide +kernel
  · decide +kernel

end VeilNetwork.Anonymity.Registry

import Rotonda.BgpIn.Tables

/-!
What the names in the tables of BGP sessions mean.

* `Named`: session ids and fresh ingress ids are one session's own, and an ingress id belongs to
  one peer, in every run;
* `Solo`: a peer has one register entry at most, and one session that negotiates, as long as no
  session starts to negotiate while another one does with the same peer.
-/

namespace Rotonda.BgpIn

open Lib Nat Register

namespace Tables

variable {st st' : Tables} {n m : Nat} {c c' d : Connection}

/-! ## Ids, keys and register entries -/

/-- How things are named, whatever the sessions do: session ids and fresh ingress ids are one
session's own, and an ingress id belongs to one peer. -/
structure Named (st : Tables) : Prop where
  numbered : st.shared.ingresses.Numbered
  sid_lt {n : Nat} {c : Connection} {sid : Nat} (hc : st.connections.get n = some c)
    (hsid : c.sid = some sid) : sid < st.shared.sessionIdCounter
  sid_inj {n m : Nat} {c d : Connection} {sid : Nat} (hc : st.connections.get n = some c)
    (hd : st.connections.get m = some d) (hcs : c.sid = some sid) (hds : d.sid = some sid) : n = m
  id_lt {n : Nat} {c : Connection} (hc : st.connections.get n = some c) :
    c.id < st.shared.ingresses.serial
  fresh {n m : Nat} {c d : Connection} (hc : st.connections.get n = some c)
    (hd : st.connections.get m = some d) (hsid : c.sid = none) (hid : d.id = c.id) : m = n
  unused {n : Nat} {c : Connection} (hc : st.connections.get n = some c) (hsid : c.sid = none) :
    st.shared.ingresses.get c.id = none
  same_key {n m : Nat} {c d : Connection} (hc : st.connections.get n = some c)
    (hd : st.connections.get m = some d) (hid : d.id = c.id) : d.key = c.key
  typed {n : Nat} {c : Connection} {info : IngressInfo} (hc : st.connections.get n = some c)
    (hinfo : st.shared.ingresses.get c.id = some info) (htype : info.ingressType = some .bgp) :
    info.remoteAddr = some c.key.1 ∧ info.remoteAsn = some c.key.2
  begun {n : Nat} {c : Connection} (hc : st.connections.get n = some c) (hsid : c.sid = none) :
    c.phase = .connecting ∨ c.phase = .closing ∨ c.phase = .ended
  connecting {n : Nat} {c : Connection} (hc : st.connections.get n = some c)
    (hphase : c.phase = .connecting) : c.sid = none

/-- Every register entry is an old one, with its type and peer, or was written by the session. -/
def Written (c : Connection) (reg reg' : Register) : Prop :=
  ∀ id info, reg'.get id = some info →
    (∃ old, reg.get id = some old ∧ old.ingressType = info.ingressType ∧
      old.remoteAddr = info.remoteAddr ∧ old.remoteAsn = info.remoteAsn) ∨
    id = c.id ∧ c.sid ≠ none ∧ (info.ingressType = some .bgp →
      info.remoteAddr = some c.key.1 ∧ info.remoteAsn = some c.key.2)

/-- A session goes on under its names. -/
theorem Named.kept (h : Named st) (hc : st.connections.get n = some c)
    (hconns : st'.connections = st.connections.insert n c') (hkey : c'.key = c.key)
    (hid : c'.id = c.id) (hsid : c'.sid = c.sid)
    (hcount : st'.shared.sessionIdCounter = st.shared.sessionIdCounter)
    (hserial : st'.shared.ingresses.serial = st.shared.ingresses.serial)
    (hbegun : c.sid = none → c'.phase = .connecting ∨ c'.phase = .closing ∨ c'.phase = .ended)
    (hconnecting : c'.phase = .connecting → c.sid = none)
    (hreg : Written c st.shared.ingresses st'.shared.ingresses) : Named st' := by
  -- every connection has the names it had
  have hold : ∀ {m d}, st'.connections.get m = some d → ∃ d₀, st.connections.get m = some d₀ ∧
      d.key = d₀.key ∧ d.id = d₀.id ∧ d.sid = d₀.sid ∧
      (d.sid = none → d.phase = .connecting ∨ d.phase = .closing ∨ d.phase = .ended) ∧
      (d.phase = .connecting → d.sid = none) := by
    intro m d hd
    rcases connection_cases hconns hd with ⟨rfl, rfl⟩ | ⟨_, hd⟩
    · exact ⟨c, hc, hkey, hid, hsid, hsid ▸ hbegun, hsid ▸ hconnecting⟩
    · exact ⟨d, hd, rfl, rfl, rfl, h.begun hd, h.connecting hd⟩
  constructor
  case numbered =>
    intro id hsome
    obtain ⟨info, hinfo⟩ := Option.isSome_iff_exists.mp hsome
    rw [hserial]
    rcases hreg id info hinfo with ⟨old, hget, _⟩ | ⟨rfl, _⟩
    · exact h.numbered id (by rw [hget]; rfl)
    · exact h.id_lt hc
  case sid_lt =>
    intro m d sid hd hds
    obtain ⟨d₀, hd₀, _, _, hs, _⟩ := hold hd
    rw [hcount]
    exact h.sid_lt hd₀ (hs ▸ hds)
  case sid_inj =>
    intro m k d e sid hd he hds hes
    obtain ⟨d₀, hd₀, _, _, hs, _⟩ := hold hd
    obtain ⟨e₀, he₀, _, _, hs', _⟩ := hold he
    exact h.sid_inj hd₀ he₀ (hs ▸ hds) (hs' ▸ hes)
  case id_lt =>
    intro m d hd
    obtain ⟨d₀, hd₀, _, hi, _⟩ := hold hd
    rw [hserial, hi]
    exact h.id_lt hd₀
  case fresh =>
    intro m k d e hd he hds hde
    obtain ⟨d₀, hd₀, _, hi, hs, _⟩ := hold hd
    obtain ⟨e₀, he₀, _, hi', _⟩ := hold he
    exact h.fresh hd₀ he₀ (hs ▸ hds) (hi' ▸ hi ▸ hde)
  case unused =>
    intro m d hd hds
    obtain ⟨d₀, hd₀, _, hi, hs, _⟩ := hold hd
    rw [Option.eq_none_iff_forall_ne_some]
    intro info hinfo
    rw [hi] at hinfo
    rcases hreg d₀.id info hinfo with ⟨old, hget, _⟩ | ⟨heq, hsome, _⟩
    · cases (h.unused hd₀ (hs ▸ hds)).symm.trans hget
    · cases h.fresh hd₀ hc (hs ▸ hds) heq.symm
      cases hc.symm.trans hd₀
      exact hsome (hs ▸ hds)
  case same_key =>
    intro m k d e hd he hde
    obtain ⟨d₀, hd₀, hk, hi, _⟩ := hold hd
    obtain ⟨e₀, he₀, hk', hi', _⟩ := hold he
    rw [hk, hk']
    exact h.same_key hd₀ he₀ (hi' ▸ hi ▸ hde)
  case typed =>
    intro m d info hd hinfo htype
    obtain ⟨d₀, hd₀, hk, hi, _⟩ := hold hd
    rw [hi] at hinfo
    rw [hk]
    rcases hreg d₀.id info hinfo with ⟨old, hget, ht, ha, hn⟩ | ⟨heq, _, hpeer⟩
    · rw [← ha, ← hn]
      exact h.typed hd₀ hget (ht.trans htype)
    · rw [h.same_key hc hd₀ heq]
      exact hpeer htype
  case begun => exact fun hd => (hold hd).choose_spec.2.2.2.2.1
  case connecting => exact fun hd => (hold hd).choose_spec.2.2.2.2.2

theorem Written.refl (c : Connection) (reg : Register) : Written c reg reg :=
  fun _ info h => .inl ⟨info, h, rfl, rfl, rfl⟩

private theorem Written.remove (c : Connection) (reg : Register) (id : IngressId) :
    Written c reg (reg.remove id) :=
  fun _ info h => .inl ⟨info, (Dict.of_get_erase h).2, rfl, rfl, rfl⟩

private theorem Written.disconnected (c : Connection) (reg : Register) (hsid : c.sid ≠ none) :
    Written c reg (reg.updateInfo c.id (.withState .disconnected)) := by
  intro id info h
  rw [get_updateInfo] at h
  split at h
  next heq =>
    subst heq
    cases hget : reg.get c.id with
    | none =>
      rw [hget] at h
      cases h
      exact .inr ⟨rfl, hsid, nofun⟩
    | some old =>
      rw [hget, Option.elim_some, IngressInfo.merge_withState] at h
      cases h
      exact .inl ⟨old, rfl, rfl, rfl, rfl⟩
  · exact .inl ⟨info, h, rfl, rfl, rfl⟩

/-- What the register holds of a session that has registered. -/
theorem get_registered (p : Processor) (reg : Register) (id : IngressId) :
    ∃ info, (reg.updateInfo id p.info).get id = some info ∧ info.state = some .connected ∧
      info.ingressType = some .bgp ∧ info.remoteAddr = some p.negotiated.key.1 ∧
      info.remoteAsn = some p.negotiated.key.2 := by
  rw [get_updateInfo, if_pos rfl]
  cases reg.get id with
  | none => exact ⟨p.info, rfl, rfl, rfl, rfl, rfl⟩
  | some old => exact ⟨old.merge p.info, rfl, rfl, rfl, rfl, rfl⟩

private theorem Written.registered (c : Connection) (reg : Register) (hsid : c.sid ≠ none) :
    Written c reg (reg.updateInfo c.id c.processor.info) := by
  intro id info h
  by_cases heq : id = c.id
  · subst heq
    obtain ⟨info', hget, _, _, haddr, hasn⟩ := get_registered c.processor reg c.id
    cases hget.symm.trans h
    exact .inr ⟨rfl, hsid, fun _ => ⟨haddr, hasn⟩⟩
  · rw [get_updateInfo_ne heq] at h
    exact .inl ⟨info, h, rfl, rfl, rfl⟩

/-- The entry of a BGP session with the peer. -/
def OfPeer (key : SessionKey) (info : IngressInfo) : Prop :=
  info.ingressType = some .bgp ∧ info.remoteAddr = some key.1 ∧ info.remoteAsn = some key.2

theorem matchesBgpSession_iff (p : Processor) (info : IngressInfo) :
    Register.matchesBgpSession p.query info = true ↔ OfPeer p.negotiated.key info := by
  simp only [Register.matchesBgpSession, Register.mandatory, Processor.query, Negotiated.key,
    OfPeer, Bool.and_eq_true, beq_iff_eq]
  constructor
  · rintro ⟨⟨⟨_, haddr⟩, _, hasn⟩, _, htype⟩
    exact ⟨htype, haddr, hasn⟩
  · rintro ⟨htype, haddr, hasn⟩
    simp [htype, haddr, hasn]

/-- A connection takes names: those of a new connection, or the session id and the ingress of a
session that negotiates. -/
theorem Named.joined (h : Named st) (hconns : st'.connections = st.connections.insert n c')
    (hreg : ∀ id, st'.shared.ingresses.get id = st.shared.ingresses.get id)
    (hserial : st.shared.ingresses.serial ≤ st'.shared.ingresses.serial)
    (hcount : st.shared.sessionIdCounter ≤ st'.shared.sessionIdCounter)
    (hid : c'.id < st'.shared.ingresses.serial)
    (hsid : ∀ sid, c'.sid = some sid →
      st.shared.sessionIdCounter ≤ sid ∧ sid < st'.shared.sessionIdCounter)
    (hkin : ∀ m d, m ≠ n → st.connections.get m = some d → d.id = c'.id →
      d.key = c'.key ∧ d.sid ≠ none ∧ c'.sid ≠ none)
    (hunused : c'.sid = none → st.shared.ingresses.get c'.id = none)
    (htyped : ∀ info, st.shared.ingresses.get c'.id = some info → info.ingressType = some .bgp →
      info.remoteAddr = some c'.key.1 ∧ info.remoteAsn = some c'.key.2)
    (hphase : c'.phase = .connecting ↔ c'.sid = none) : Named st' := by
  have hne : ∀ {m d sid}, st.connections.get m = some d → d.sid = some sid →
      c'.sid ≠ some sid := fun hd hds hcs =>
    absurd (h.sid_lt hd hds) (not_lt.mpr (hsid _ hcs).1)
  have hcases {m : Nat} {d : Connection} := connection_cases (m := m) (d := d) hconns
  constructor
  case numbered =>
    intro id hsome
    rw [hreg] at hsome
    exact lt_of_lt_of_le (h.numbered id hsome) hserial
  case sid_lt =>
    intro m d sid hd hds
    rcases hcases hd with ⟨rfl, rfl⟩ | ⟨_, hd₀⟩
    · exact (hsid sid hds).2
    · exact lt_of_lt_of_le (h.sid_lt hd₀ hds) hcount
  case sid_inj =>
    intro m k d e sid hd he hds hes
    rcases hcases hd with ⟨rfl, rfl⟩ | ⟨_, hd₀⟩ <;>
      rcases hcases he with ⟨rfl, rfl⟩ | ⟨_, he₀⟩
    · rfl
    · exact absurd hds (hne he₀ hes)
    · exact absurd hes (hne hd₀ hds)
    · exact h.sid_inj hd₀ he₀ hds hes
  case id_lt =>
    intro m d hd
    rcases hcases hd with ⟨rfl, rfl⟩ | ⟨_, hd₀⟩
    · exact hid
    · exact lt_of_lt_of_le (h.id_lt hd₀) hserial
  case fresh =>
    intro m k d e hd he hds hde
    rcases hcases hd with ⟨rfl, rfl⟩ | ⟨hmn, hd₀⟩ <;>
      rcases hcases he with ⟨rfl, rfl⟩ | ⟨hkn, he₀⟩
    · rfl
    · exact absurd hds (hkin k e hkn he₀ hde).2.2
    · exact absurd hds (hkin m d hmn hd₀ hde.symm).2.1
    · exact h.fresh hd₀ he₀ hds hde
  case unused =>
    intro m d hd hds
    rw [hreg]
    rcases hcases hd with ⟨rfl, rfl⟩ | ⟨_, hd₀⟩
    · exact hunused hds
    · exact h.unused hd₀ hds
  case same_key =>
    intro m k d e hd he hde
    rcases hcases hd with ⟨rfl, rfl⟩ | ⟨hmn, hd₀⟩ <;>
      rcases hcases he with ⟨rfl, rfl⟩ | ⟨hkn, he₀⟩
    · rfl
    · exact (hkin k e hkn he₀ hde).1
    · exact (hkin m d hmn hd₀ hde.symm).1.symm
    · exact h.same_key hd₀ he₀ hde
  case typed =>
    intro m d info hd hinfo htype
    rw [hreg] at hinfo
    rcases hcases hd with ⟨rfl, rfl⟩ | ⟨_, hd₀⟩
    · exact htyped info hinfo htype
    · exact h.typed hd₀ hinfo htype
  case begun =>
    intro m d hd hds
    rcases hcases hd with ⟨rfl, rfl⟩ | ⟨_, hd₀⟩
    · exact .inl (hphase.mpr hds)
    · exact h.begun hd₀ hds
  case connecting =>
    intro m d hd hdp
    rcases hcases hd with ⟨rfl, rfl⟩ | ⟨_, hd₀⟩
    · exact hphase.mp hdp
    · exact h.connecting hd₀ hdp

theorem Named.accepted (h : Named st) (hun : st.shared.ingresses.Unwrapped)
    (negotiated : Negotiated) : Named (st.accepts n negotiated) := by
  have hget := Numbered.get_register_fst h.numbered hun
  refine h.joined rfl (fun _ => rfl) (le_succ _) (le_refl _) (register_lt _) nofun
    (fun m d _ hd heq => ?_) (fun _ => hget) (fun info hinfo => ?_) ⟨fun _ => rfl, fun _ => rfl⟩
  · exact absurd (heq.trans hun.register) (Nat.ne_of_lt (h.id_lt hd))
  · cases hget.symm.trans hinfo

/-- A session takes a session id, and an ingress that is its own or its peer's. -/
theorem Named.begins {input : Input} {id : IngressId} (h : Named st)
    (hid : id < st.shared.ingresses.serial)
    (hkin : ∀ m d, m ≠ n → st.connections.get m = some d → d.id = id →
      d.key = c.key ∧ d.sid ≠ none)
    (htyped : ∀ info, st.shared.ingresses.get id = some info → info.ingressType = some .bgp →
      info.remoteAddr = some c.key.1 ∧ info.remoteAsn = some c.key.2) :
    Named (st.negotiates n c input id) := by
  refine h.joined rfl (fun _ => rfl) (le_refl _) (le_succ _) hid (fun sid hcs => ?_)
    (fun m d hmn hd heq => ?_) nofun htyped ⟨nofun, nofun⟩
  · cases hcs
    exact ⟨le_refl _, lt_succ_self _⟩
  · obtain ⟨hkey, hsome⟩ := hkin m d hmn hd heq
    exact ⟨hkey, hsome, nofun⟩

variable {p : Processor} {abort : Option Nat}

theorem Named.act {input : Input} {sh : Shared} (h : Named st) (hc : st.connections.get n = some c)
    (hacts : c.processor.Acts st.shared input p sh abort) :
    Named (st.after n c input p sh abort) := by
  -- a session that goes on has its names already, unless it leaves before it negotiates
  have hbegun : c.phase ≠ .connecting → c.phase ≠ .closing → c.phase ≠ .ended → c.sid ≠ none := by
    intro h1 h2 h3 hsid
    rcases h.begun hc hsid with hphase | hphase | hphase
    · exact h1 hphase
    · exact h2 hphase
    · exact h3 hphase
  have hgoes : ∀ {phase : Phase}, c.processor.phase = phase → phase ≠ .connecting →
      phase ≠ .closing → phase ≠ .ended → c.sid ≠ none := by
    rintro _ rfl
    exact hbegun
  cases hacts with
  | reuse hp hfind =>
    obtain ⟨_, hinfo, hmatch⟩ := Dict.find_eq_some hfind
    obtain ⟨htype, haddr, hasn⟩ := (matchesBgpSession_iff _ _).mp hmatch
    refine h.begins (h.numbered _ (Option.isSome_of_eq_some hinfo))
      (fun m d _ hd heq => ⟨?_, fun hds => ?_⟩) fun info' hinfo' _ => ?_
    · obtain ⟨haddr', hasn'⟩ := h.typed hd (heq ▸ hinfo) htype
      exact Prod.ext (Option.some.inj (haddr'.symm.trans haddr))
        (Option.some.inj (hasn'.symm.trans hasn))
    · cases (h.unused hd hds).symm.trans (heq ▸ hinfo)
    · cases hinfo.symm.trans hinfo'
      exact ⟨haddr, hasn⟩
  | own hp _ =>
    have hnone := h.connecting hc hp
    refine h.begins (h.id_lt hc) (fun m d hmn hd heq => absurd (h.fresh hc hd hnone heq) hmn)
      fun info hinfo => ?_
    cases (h.unused hc hnone).symm.trans hinfo
  | leave =>
    exact h.kept hc rfl rfl rfl rfl rfl rfl (fun _ => .inr (.inl rfl)) nofun (.refl _ _)
  | takeOut hp _ | vacant hp _ | dismiss hp _ | succeed hp _ | insert hp _ =>
    exact h.kept hc rfl rfl rfl rfl rfl rfl
      (fun hnone => absurd hnone (hgoes hp nofun nofun nofun)) nofun (.refl _ _)
  | remove hp =>
    exact h.kept hc rfl rfl rfl rfl rfl rfl
      (fun hnone => absurd hnone (hgoes hp nofun nofun nofun)) nofun (.remove _ _ _)
  | register hp =>
    have hsid := hgoes hp nofun nofun nofun
    exact h.kept hc rfl rfl rfl rfl rfl rfl (fun hnone => absurd hnone hsid) nofun
      (.registered _ _ hsid)
  | update =>
    exact h.kept hc rfl rfl rfl rfl rfl rfl (h.begun hc)
      (fun hphase => h.connecting hc hphase) (.refl _ _)
  | quit hp _ hsid =>
    have hsome : c.sid ≠ none := fun hnone => nomatch hnone.symm.trans hsid
    exact h.kept hc rfl rfl rfl rfl rfl rfl (fun hnone => absurd hnone hsome) nofun
      (.disconnected _ _ hsome)
  | expelled | keep =>
    exact h.kept hc rfl rfl rfl rfl rfl rfl (fun _ => .inr (.inr rfl)) nofun (.refl _ _)
  | free => exact h.kept hc rfl rfl rfl rfl rfl rfl (fun _ => .inr (.inr rfl)) nofun (.remove _ _ _)

/-! ## One negotiation at a time with a peer -/

/-- A peer has one register entry at most, and one session that negotiates, which has chosen the
ingress of that entry. -/
structure Solo (st : Tables) : Prop where
  unique {id id' : IngressId} {info info' : IngressInfo} {key : SessionKey}
    (h : st.shared.ingresses.get id = some info) (h' : st.shared.ingresses.get id' = some info')
    (hpeer : OfPeer key info) (hpeer' : OfPeer key info') : id = id'
  sole {n : Nat} {c : Connection} {id : IngressId} {info : IngressInfo}
    (hc : st.connections.get n = some c) (hneg : c.phase.negotiating = true)
    (hinfo : st.shared.ingresses.get id = some info) (hpeer : OfPeer c.key info) : id = c.id
  alone {n m : Nat} {c d : Connection} (hc : st.connections.get n = some c)
    (hd : st.connections.get m = some d) (hcn : c.Negotiating) (hdn : d.Negotiating)
    (hkey : d.key = c.key) : m = n

/-- No entry is new, and none has another type or peer. -/
def NoneNew (reg reg' : Register) : Prop :=
  ∀ id info, reg'.get id = some info → ∃ old, reg.get id = some old ∧
    ∀ key, OfPeer key info → OfPeer key old

variable (reg : Register)

theorem NoneNew.refl : NoneNew reg reg :=
  fun _ info h => ⟨info, h, fun _ h => h⟩

private theorem NoneNew.remove (id : IngressId) : NoneNew reg (reg.remove id) :=
  fun _ info h => ⟨info, (Dict.of_get_erase h).2, fun _ h => h⟩

theorem Solo.kept (h : Solo st) (hc : st.connections.get n = some c)
    (hconns : st'.connections = st.connections.insert n c') (hkey : c'.key = c.key)
    (hid : c'.id = c.id) (hphase : c'.phase.negotiating = true → c.phase.negotiating = true)
    (hneg : c'.Negotiating → c.Negotiating)
    (hreg : NoneNew st.shared.ingresses st'.shared.ingresses) : Solo st' := by
  have hold : ∀ {m d}, st'.connections.get m = some d → ∃ d₀, st.connections.get m = some d₀ ∧
      d.key = d₀.key ∧ d.id = d₀.id ∧ (d.phase.negotiating = true → d₀.phase.negotiating = true) ∧
      (d.Negotiating → d₀.Negotiating) := by
    intro m d hd
    rcases connection_cases hconns hd with ⟨rfl, rfl⟩ | ⟨_, hd⟩
    · exact ⟨c, hc, hkey, hid, hphase, hneg⟩
    · exact ⟨d, hd, rfl, rfl, fun h => h, fun h => h⟩
  constructor
  case unique =>
    intro id id' info info' key hinfo hinfo' hpeer hpeer'
    obtain ⟨old, hget, hof⟩ := hreg id info hinfo
    obtain ⟨old', hget', hof'⟩ := hreg id' info' hinfo'
    exact h.unique hget hget' (hof key hpeer) (hof' key hpeer')
  case sole =>
    intro m d id info hd hdn hinfo hpeer
    obtain ⟨d₀, hd₀, hk, hi, hp, _⟩ := hold hd
    obtain ⟨old, hget, hof⟩ := hreg id info hinfo
    rw [hi]
    exact h.sole hd₀ (hp hdn) hget (hof _ (hk ▸ hpeer))
  case alone =>
    intro m k d e hd he hdn hen hde
    obtain ⟨d₀, hd₀, hk, _, _, hn⟩ := hold hd
    obtain ⟨e₀, he₀, hk', _, _, hn'⟩ := hold he
    exact h.alone hd₀ he₀ (hn hdn) (hn' hen) (hk' ▸ hk ▸ hde)

/-- A connection comes in, or starts to negotiate with the ingress of the one entry of its peer. -/
theorem Solo.joined (h : Solo st)
    (hconns : st'.connections = st.connections.insert n c')
    (hreg : ∀ id, st'.shared.ingresses.get id = st.shared.ingresses.get id)
    (hapart : c'.Negotiating →
      ∀ m d, st.connections.get m = some d → d.Negotiating → d.key ≠ c'.key)
    (hid : c'.Negotiating → ∀ id info, st.shared.ingresses.get id = some info →
      OfPeer c'.key info → id = c'.id) : Solo st' := by
  constructor
  case unique =>
    intro id id' info info' key hinfo hinfo'
    rw [hreg] at hinfo hinfo'
    exact h.unique hinfo hinfo'
  case sole =>
    intro m d id info hd hdn hinfo hpeer
    rw [hreg] at hinfo
    rcases connection_cases hconns hd with ⟨rfl, rfl⟩ | ⟨_, hd₀⟩
    · exact hid (.inl hdn) id info hinfo hpeer
    · exact h.sole hd₀ hdn hinfo hpeer
  case alone =>
    intro m k d e hd he hdn hen hde
    rcases connection_cases hconns hd with ⟨rfl, rfl⟩ | ⟨_, hd₀⟩ <;>
      rcases connection_cases hconns he with ⟨rfl, rfl⟩ | ⟨_, he₀⟩
    · rfl
    · exact absurd hde (hapart hdn k e he₀ hen)
    · exact absurd hde.symm (hapart hen m d hd₀ hdn)
    · exact h.alone hd₀ he₀ hdn hen hde

/-- The session writes the one entry of its peer. -/
private theorem Solo.registered (h : Solo st) (hc : st.connections.get n = some c)
    (hphase : c.phase.negotiating = true) (hconns : st'.connections = st.connections.insert n c')
    (hkey : c'.key = c.key) (hphase' : c'.phase.negotiating = false)
    (hreg : st'.shared.ingresses = st.shared.ingresses.updateInfo c.id c.processor.info) :
    Solo st' := by
  -- an entry of the register is the session's, or an old one
  have hentry : ∀ {id info}, st'.shared.ingresses.get id = some info →
      id = c.id ∧ OfPeer c.key info ∨ st.shared.ingresses.get id = some info := by
    intro id info hinfo
    rw [hreg] at hinfo
    by_cases heq : id = c.id
    · subst heq
      obtain ⟨info', hget, _, htype, haddr, hasn⟩ :=
        get_registered c.processor st.shared.ingresses c.id
      cases hget.symm.trans hinfo
      exact .inl ⟨rfl, htype, haddr, hasn⟩
    · exact .inr (get_updateInfo_ne heq ▸ hinfo)
  have hsame : ∀ {key info}, OfPeer key info → OfPeer c.key info → key = c.key := by
    rintro key info ⟨_, haddr, hasn⟩ ⟨_, haddr', hasn'⟩
    exact Prod.ext (Option.some.inj (haddr.symm.trans haddr'))
      (Option.some.inj (hasn.symm.trans hasn'))
  constructor
  case unique =>
    intro id id' info info' key hinfo hinfo' hpeer hpeer'
    rcases hentry hinfo with ⟨rfl, hown⟩ | hget <;> rcases hentry hinfo' with ⟨rfl, hown'⟩ | hget'
    · rfl
    · exact (h.sole hc hphase hget' (hsame hpeer hown ▸ hpeer')).symm
    · exact h.sole hc hphase hget (hsame hpeer' hown' ▸ hpeer)
    · exact h.unique hget hget' hpeer hpeer'
  case sole =>
    intro m d id info hd hdn hinfo hpeer
    rcases connection_cases hconns hd with ⟨rfl, rfl⟩ | ⟨hne, hd₀⟩
    · rw [hphase'] at hdn
      cases hdn
    · rcases hentry hinfo with ⟨rfl, hown⟩ | hget
      · exact absurd (h.alone hc hd₀ (.inl hphase) (.inl hdn) (hsame hpeer hown)) hne
      · exact h.sole hd₀ hdn hget hpeer
  case alone =>
    intro m k d e hd he hdn hen hde
    rcases connection_cases hconns hd with ⟨rfl, rfl⟩ | ⟨_, hd₀⟩ <;>
      rcases connection_cases hconns he with ⟨rfl, rfl⟩ | ⟨_, he₀⟩
    · rfl
    · exact h.alone hc he₀ (.inl hphase) hen (hde.trans hkey)
    · exact (h.alone hc hd₀ (.inl hphase) hdn (hde.symm.trans hkey)).symm
    · exact h.alone hd₀ he₀ hdn hen hde

/-- A step that starts no negotiation is in the middle of one only if the session was. -/
theorem negotiating_after (h : p.phase.negotiating = true → c.phase.negotiating = true)
    (hneg : Connection.Negotiating { c with processor := p, unmetered := c.phase = .registering }) :
    c.Negotiating := by
  rcases hneg with hneg | hneg
  · exact .inl (h hneg)
  · have hphase : c.phase = .registering := of_decide_eq_true hneg
    exact .inl (by rw [hphase]; rfl)

private theorem NoneNew.disconnected {id : IngressId} (hsome : (reg.get id).isSome)
    : NoneNew reg (reg.updateInfo id (.withState .disconnected)) := by
  intro id' info h
  rw [get_updateInfo] at h
  split at h
  next heq =>
    subst heq
    obtain ⟨old, hold⟩ := Option.isSome_iff_exists.mp hsome
    rw [hold, Option.elim_some, IngressInfo.merge_withState] at h
    cases h
    exact ⟨old, hold, fun _ h => h⟩
  · exact ⟨info, h, fun _ h => h⟩

theorem Solo.act {input : Input} {sh : Shared}
    (h : Solo st) (hc : st.connections.get n = some c)
    (hacts : c.processor.Acts st.shared input p sh abort)
    (hiter : st.Iterates (.act n input)) (hapart : st.Apart (.act n input))
    -- a session that quits is registered
    (hquit : c.phase = .closing → (∃ e, st.shared.liveSessions.get c.key = some e ∧
      c.sid = some e.sessionId) → (st.shared.ingresses.get c.id).isSome) :
    Solo (st.after n c input p sh abort) := by
  have hneg : ∀ {phase : Phase}, c.processor.phase = phase → phase.negotiating = true →
      c.phase.negotiating = true := by
    rintro _ rfl
    exact fun h => h
  have hkept : ∀ (phase : Phase) {reg : Register},
      (phase.negotiating = true → c.phase.negotiating = true) →
      NoneNew st.shared.ingresses reg → sh.ingresses = reg →
      p = { c.processor with phase := phase } → Solo (st.after n c input p sh abort) := by
    rintro phase reg hphase hreg rfl rfl
    exact h.kept hc rfl rfl rfl hphase (negotiating_after hphase) hreg
  cases hacts with
  | reuse hp hfind =>
    obtain ⟨_, hinfo, hmatch⟩ := Dict.find_eq_some hfind
    exact h.joined rfl (fun _ => rfl) (fun _ => hapart c hc) fun _ id' info' hget hpeer =>
      h.unique hget hinfo hpeer ((matchesBgpSession_iff _ _).mp hmatch)
  | own hp hfind =>
    refine h.joined rfl (fun _ => rfl) (fun _ => hapart c hc) fun _ id' info' hget hpeer => ?_
    have hno := (Dict.find_eq_none hiter).mp hfind id' info' hget
    rw [(matchesBgpSession_iff c.processor _).mpr hpeer] at hno
    cases hno
  | leave => exact hkept .closing nofun (.refl _) rfl rfl
  | takeOut hp _ | vacant hp _ | dismiss hp _ | succeed hp _ | insert hp _ =>
    exact hkept _ (fun _ => hneg hp rfl) (.refl _) rfl rfl
  | remove hp => exact hkept _ (fun _ => hneg hp rfl) (.remove _ _) rfl rfl
  | register hp => exact h.registered hc (hneg hp rfl) rfl rfl rfl rfl
  | update hp => exact hkept _ (fun h => h) (.refl _) rfl rfl
  | quit hp hlive hsid =>
    exact hkept .reclaiming nofun (.disconnected _ (hquit hp ⟨_, hlive, hsid⟩)) rfl rfl
  | expelled | keep => exact hkept .ended nofun (.refl _) rfl rfl
  | free => exact hkept .ended nofun (.remove _ _) rfl rfl

end Tables

end Rotonda.BgpIn

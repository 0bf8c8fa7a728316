import Iputils.LinkClient

/-!
# Trust over runs

Whatever the bridge sends, and whoever it is: a session is there only if a transcript with
the nonce of the client has been signed under the pinned key, and a pin that is there is
never replaced. Both hold over every sequence of calls, and with a pin in the store also
across processes.
-/
set_option autoImplicit false

namespace Iputils.LinkRuns
open BraceFraming BridgeFields BridgeBytes EciesEnvelope LinkTranscript LinkClient

variable {B S Point : Type} {c : Crypto Point} {evp : Evp} {bridge : Bridge B}
  {store : PinStore S}

section Frames
variable (c evp bridge)

/-- What decides whom the client trusts. -/
def trust (w : World B S) : Option (List.Vector UInt8 65) × Option Session × S :=
  (w.client.pin, w.client.session, w.store)

theorem trust_blConnect (w : World B S) : trust (blConnect bridge w).1 = trust w := by
  unfold blConnect
  split_ifs
  · rfl
  · rfl
  · dsimp only
    split_ifs <;> rfl

theorem trust_blSendRequest (w : World B S) (json : List Char) :
    trust (blSendRequest bridge w json).1 = trust w := by
  have hconnect := trust_blConnect bridge w
  unfold blSendRequest
  generalize blConnect bridge w = r at hconnect
  obtain ⟨w', _ | st⟩ := r
  · rw [← hconnect]
    dsimp only
    split
    · rfl
    · split <;> rfl
  · exact hconnect

theorem trust_fetchPubkey (w : World B S) (cmd : List Char) :
    trust (fetchPubkey bridge evp w cmd).1 = trust w := by
  have hsend := trust_blSendRequest bridge w cmd
  unfold fetchPubkey
  generalize blSendRequest bridge w cmd = r at hsend
  obtain ⟨w', st | resp⟩ := r
  · exact hsend
  · rw [← hsend]
    dsimp only
    split
    · rfl
    · split <;> rfl

theorem trust_exchange (draws : Draws) (w : World B S) (bridgePub sepPub : List.Vector UInt8 65) :
    trust (exchange c evp bridge draws w bridgePub sepPub).1 = trust w := by
  unfold exchange
  split
  · rfl
  · next m request _ =>
      have hsend := trust_blSendRequest bridge w request
      generalize blSendRequest bridge w request = r at hsend
      obtain ⟨w', st | resp⟩ := r
      · exact hsend
      · rw [← hsend]
        dsimp only
        split <;> rfl

theorem trust_geoExchange {D : Type} (doubles : GeoLookup.Doubles D) (format : BlGeoFormat)
    (w : World B S) : trust (geoExchange doubles bridge format w).1 = trust w := by
  have hsend := trust_blSendRequest bridge w (geoJson format)
  unfold geoExchange
  generalize blSendRequest bridge w (geoJson format) = r at hsend
  obtain ⟨w', st | resp⟩ := r
  · exact hsend
  · rw [← hsend]
    dsimp only
    split
    · rfl
    · split_ifs <;> rfl

end Frames

section Registration

/-- A session whose transcript has been signed under `k`, with what the client has drawn. -/
def Genuine (c : Crypto Point) (draws : Draws) (k : List.Vector UInt8 65) (s : Session) : Prop :=
  ∃ m bridgeShare issued ttl sig, material c draws = some m ∧
    blcVerifyP256 c k
      (buildTranscript ⟨m.nonce, m.ephPub, m.share, s.id, bridgeShare⟩ m.issuedAtBd issued ttl)
      sig = true ∧
    sessionKey c m.nonce.toList s.id.toList m.share.toList bridgeShare.toList = some s.key

theorem need_ok {α : Type} {st : BlStatus} {o : Option α} {a : α} :
    need st o = .ok a ↔ o = some a := by
  cases o <;> simp [need]

theorem bind_ok {α β : Type} {x : Except BlStatus α} {f : α → Except BlStatus β} {b : β}
    (h : (x >>= f) = .ok b) : ∃ a, x = .ok a ∧ f a = .ok b := by
  cases x with
  | error st => cases h
  | ok a => exact ⟨a, rfl, h⟩

/-- A session that is accepted has been signed. -/
theorem accepted {m : Material} {k : List.Vector UInt8 65} {resp : List Char} {s : Session}
    (h : acceptRegistration c evp m k resp = .ok s) :
    ∃ bridgeShare issued ttl sig,
      blcVerifyP256 c k
        (buildTranscript ⟨m.nonce, m.ephPub, m.share, s.id, bridgeShare⟩ m.issuedAtBd issued ttl)
        sig = true ∧
      sessionKey c m.nonce.toList s.id.toList m.share.toList bridgeShare.toList = some s.key := by
  unfold acceptRegistration at h
  obtain ⟨issued, -, h⟩ := bind_ok h
  obtain ⟨ttl, -, h⟩ := bind_ok h
  obtain ⟨id, -, h⟩ := bind_ok h
  obtain ⟨envB64, -, h⟩ := bind_ok h
  obtain ⟨envelope, -, h⟩ := bind_ok h
  obtain ⟨bridgeShare, -, h⟩ := bind_ok h
  obtain ⟨key, hkey, h⟩ := bind_ok h
  obtain ⟨sigB64, -, h⟩ := bind_ok h
  obtain ⟨sig, -, h⟩ := bind_ok h
  split_ifs at h with hverify
  obtain rfl := Except.ok.inj h
  exact ⟨bridgeShare, issued, ttl, sig, hverify, need_ok.mp hkey⟩

theorem registerRequest_ok {client : Client} {bridgePub : List.Vector UInt8 65} {draws : Draws}
    {m : Material} {request : List Char}
    (h : registerRequest c evp client bridgePub draws = .ok (m, request)) :
    material c draws = some m := by
  unfold registerRequest at h
  obtain ⟨m', hm, h⟩ := bind_ok h
  dsimp only at h
  split_ifs at h
  · cases h
  · obtain ⟨-, -, h⟩ := bind_ok h
    obtain ⟨envelope, -, h⟩ := bind_ok h
    obtain ⟨envB64, -, h⟩ := bind_ok h
    obtain ⟨nonceB64, -, h⟩ := bind_ok h
    split_ifs at h
    · cases h
    · obtain ⟨rfl, -⟩ := Prod.mk.inj (Except.ok.inj h)
      exact need_ok.mp hm

theorem exchange_ok {draws : Draws} {w : World B S} {bridgePub k : List.Vector UInt8 65}
    {s : Session} (h : (exchange c evp bridge draws w bridgePub k).2 = .ok s) :
    Genuine c draws k s := by
  unfold exchange at h
  split at h
  · cases h
  · next m request hrequest =>
      split at h
      · cases h
      · split at h
        · cases h
        · obtain ⟨bridgeShare, issued, ttl, sig, hsig, hkey⟩ := accepted h
          exact ⟨m, bridgeShare, issued, ttl, sig, registerRequest_ok hrequest, hsig, hkey⟩

/-- The pin after a possible load. -/
def pinNow (store : PinStore S) (storeReads : Bool) (w : World B S) :
    Option (List.Vector UInt8 65) :=
  w.client.pin.or (if storeReads then store.load w.store else none)

/-- Everything that a registration can do to the trust. -/
inductive Registered (c : Crypto Point) (store : PinStore S) (draws : Draws) (w w' : World B S) :
    Prop
  | active (h : trust w' = trust w)
  | failed (hnone : w.client.session = none)
      (h : trust w' = (pinNow store draws.storeReads w, none, w.store))
  | again (k : List.Vector UInt8 65) (s : Session) (hpin : pinNow store draws.storeReads w = some k)
      (hs : Genuine c draws k s) (h : trust w' = (some k, some s, w.store))
  | first (k : List.Vector UInt8 65) (s : Session) (hpin : pinNow store draws.storeReads w = none)
      (hs : Genuine c draws k s)
      (h : trust w' = (some k, some s, (store.save w.store k).1))

theorem Registered.congr {draws : Draws} {w w' w'' : World B S} (h : Registered c store draws w w')
    (heq : trust w'' = trust w') : Registered c store draws w w'' := by
  cases h with
  | active h => exact .active (heq.trans h)
  | failed hnone h => exact .failed hnone (heq.trans h)
  | again k s hpin hs h => exact .again k s hpin hs (heq.trans h)
  | first k s hpin hs h => exact .first k s hpin hs (heq.trans h)

theorem loadPin_eq (store : PinStore S) (storeReads : Bool) (w : World B S) :
    loadPin store storeReads (blClearBridgeError w) = { w with client := { w.client with
      pin := pinNow store storeReads w, lastBridgeError := none } } := by
  unfold loadPin pinNow blClearBridgeError
  dsimp only
  cases hpin : w.client.pin with
  | some k => rfl
  | none => cases storeReads <;> simp

theorem trust_loadPin (store : PinStore S) (storeReads : Bool) (w : World B S) :
    trust (loadPin store storeReads (blClearBridgeError w)) =
      (pinNow store storeReads w, w.client.session, w.store) := by
  rw [loadPin_eq]
  rfl

theorem trust_commit_pinFirst (store : PinStore S) (w : World B S) (k : List.Vector UInt8 65)
    (s : Session) :
    trust (commit (pinFirst store w k) s) =
      match w.client.pin with
      | some p => (some p, some s, w.store)
      | none => (some k, some s, (store.save w.store k).1) := by
  unfold pinFirst
  cases hpin : w.client.pin with
  | none => rfl
  | some p => simp [trust, commit, hpin]

theorem registered (c : Crypto Point) (evp : Evp) (bridge : Bridge B) (store : PinStore S)
    (draws : Draws) (w : World B S) :
    Registered c store draws w (blRegister c evp bridge store draws w).1 := by
  unfold blRegister
  split_ifs with hactive
  · exact .active rfl
  · have hnone : w.client.session = none := by simpa using hactive
    have hload := trust_loadPin store draws.storeReads w
    rw [hnone] at hload
    dsimp only
    generalize loadPin store draws.storeReads (blClearBridgeError w) = w₀ at hload
    have hbridge := trust_fetchPubkey evp bridge w₀
      (commandJson "GET_PUBLIC_KEY".toList)
    generalize fetchPubkey bridge evp w₀ _ = r at hbridge
    obtain ⟨w₁, st | bridgePub⟩ := r
    · exact .failed hnone (hbridge.trans hload)
    · dsimp only
      have hsep := trust_fetchPubkey evp bridge w₁
        (commandJson "GET_ENCLAVE_PUBLIC_KEY".toList)
      generalize fetchPubkey bridge evp w₁ _ = r at hsep
      obtain ⟨w₂, st | sepPub⟩ := r
      · exact .failed hnone (hsep.trans (hbridge.trans hload))
      · dsimp only
        have hw₂ := hsep.trans (hbridge.trans hload)
        split_ifs with hpin
        · exact .failed hnone hw₂
        · have hexchange := trust_exchange c evp bridge draws w₂
            bridgePub sepPub
          have hok := @exchange_ok B S Point c evp bridge draws w₂ bridgePub sepPub
          generalize exchange c evp bridge draws w₂ bridgePub sepPub = r at hexchange hok
          obtain ⟨w₃, st | s⟩ := r
          · exact .failed hnone (hexchange.trans hw₂)
          · have hgenuine := hok rfl
            have hw₃ := hexchange.trans hw₂
            obtain ⟨hpin₂, -⟩ := Prod.mk.inj hw₂
            obtain ⟨hpin₃, hrest⟩ := Prod.mk.inj hw₃
            obtain ⟨-, hstore₃⟩ := Prod.mk.inj hrest
            have hdone := trust_commit_pinFirst store w₃ sepPub s
            rw [hpin₃, hstore₃] at hdone
            cases hnow : pinNow store draws.storeReads w with
            | none =>
                rw [hnow] at hdone
                exact .first sepPub s hnow hgenuine hdone
            | some p =>
                rw [hnow] at hdone hpin₂
                have hpinned : w₂.client.pin = some p := hpin₂
                rw [hpinned] at hpin
                obtain rfl : p = sepPub := by simpa using hpin
                exact .again p s hnow hgenuine hdone

end Registration

section Runs
variable {D : Type} {doubles : GeoLookup.Doubles D}

/-- A call of the library, or a new process with its own client. -/
inductive Call
  | register (draws : Draws)
  | geoGet (draws : Draws) (format : BlGeoFormat)
  | renew (cfg : Config) (env : Environment)

def step (c : Crypto Point) (evp : Evp) (bridge : Bridge B) (store : PinStore S)
    (doubles : GeoLookup.Doubles D) (w : World B S) : Call → World B S
  | .register draws => (blRegister c evp bridge store draws w).1
  | .geoGet draws format => (blGeoGet doubles c evp bridge store draws format w).1
  | .renew cfg env =>
      match blClientNew cfg env with
      | some client => { w with client := client }
      | none => w

def run (c : Crypto Point) (evp : Evp) (bridge : Bridge B) (store : PinStore S)
    (doubles : GeoLookup.Doubles D) (w : World B S) (calls : List Call) : World B S :=
  calls.foldl (step c evp bridge store doubles) w

def Call.draws : Call → List Draws
  | .register draws => [draws]
  | .geoGet draws _ => [draws]
  | .renew _ _ => []

/-- What a call can do to the trust. -/
inductive Stepped (c : Crypto Point) (store : PinStore S) (call : Call) (w w' : World B S) : Prop
  | registered (draws : Draws) (hdraws : draws ∈ call.draws) (w₀ : World B S)
      (h₀ : trust w₀ = trust w) (h : Registered c store draws w₀ w')
  | renewed (hcall : call.draws = []) (h : trust w' = (none, none, w.store))
  | same (h : trust w' = trust w)

theorem stepped (c : Crypto Point) (evp : Evp) (bridge : Bridge B) (store : PinStore S)
    (doubles : GeoLookup.Doubles D) (call : Call) (w : World B S) :
    Stepped c store call w (step c evp bridge store doubles w call) := by
  cases call with
  | register draws =>
      exact .registered draws List.mem_cons_self w rfl (registered c evp bridge store draws w)
  | geoGet draws format =>
      have hclear : trust (blClearBridgeError w) = trust w := rfl
      have hregistered := registered c evp bridge store draws (blClearBridgeError w)
      change Stepped c store _ w (blGeoGet doubles c evp bridge store draws format w).1
      unfold blGeoGet
      dsimp only
      split_ifs with hactive
      · exact .same (trust_geoExchange bridge doubles format _)
      · generalize blRegister c evp bridge store draws (blClearBridgeError w) = r at hregistered
        obtain ⟨w₁, _ | st⟩ := r
        · exact .registered draws List.mem_cons_self _ hclear
            (hregistered.congr (trust_geoExchange bridge doubles format w₁))
        · exact .registered draws List.mem_cons_self _ hclear hregistered
  | renew cfg env =>
      change Stepped c store _ w (match blClientNew cfg env with
        | some client => { w with client := client }
        | none => w)
      cases hnew : blClientNew cfg env with
      | none => exact .same rfl
      | some client =>
          obtain ⟨socket, -, rfl⟩ := Option.map_eq_some_iff.mp hnew
          exact .renewed rfl rfl

/-- The random numbers of a run. -/
def drawn (calls : List Call) : List Draws := calls.flatMap Call.draws

theorem run_cons (w : World B S) (call : Call) (calls : List Call) :
    run c evp bridge store doubles w (call :: calls) =
      run c evp bridge store doubles (step c evp bridge store doubles w call) calls := rfl

/-- A property that is kept whatever a call does to the trust is kept by every run. -/
theorem run_induction (c : Crypto Point) (evp : Evp) (bridge : Bridge B) (store : PinStore S)
    (doubles : GeoLookup.Doubles D) {P : List Draws → World B S → Prop}
    (hstep : ∀ past call w w', P past w → Stepped c store call w w' → P (past ++ call.draws) w')
    {past : List Draws} {w : World B S} (h : P past w) (calls : List Call) :
    P (past ++ drawn calls) (run c evp bridge store doubles w calls) := by
  induction calls generalizing past w with
  | nil => rw [drawn, List.flatMap_nil, List.append_nil]; exact h
  | cons call calls ih =>
      have hnext := ih (hstep past call w _ h (stepped c evp bridge store doubles call w))
      rw [List.append_assoc] at hnext
      rw [run_cons]
      exact hnext

/-- A client that has just been created. -/
def Fresh (client : Client) : Prop := ∃ cfg env, blClientNew cfg env = some client

theorem Fresh.trust {w : World B S} (h : Fresh w.client) : trust w = (none, none, w.store) := by
  obtain ⟨cfg, env, hnew⟩ := h
  obtain ⟨socket, -, hclient⟩ := Option.map_eq_some_iff.mp hnew
  simp only [LinkRuns.trust, ← hclient]

theorem trust_values {w : World B S} {pin : Option (List.Vector UInt8 65)}
    {session : Option Session} {st : S} (h : trust w = (pin, session, st)) :
    w.client.pin = pin ∧ w.client.session = session ∧ w.store = st := by
  obtain ⟨hpin, hrest⟩ := Prod.mk.inj h
  exact ⟨hpin, Prod.mk.inj hrest⟩

/-- Whoever has signed for the session, its key is the pin. -/
def Signed (c : Crypto Point) (past : List Draws) (w : World B S) : Prop :=
  ∀ s, w.client.session = some s → ∃ k, w.client.pin = some k ∧ ∃ d ∈ past, Genuine c d k s

theorem Signed.congr {past : List Draws} {w w' : World B S} (h : Signed c past w)
    (heq : trust w' = trust w) : Signed c past w' := by
  obtain ⟨hpin, hsession, -⟩ := trust_values heq
  intro s hs
  rw [hpin]
  exact h s (hsession.symm.trans hs)

theorem signed_registered {past : List Draws} {d : Draws} (hd : d ∈ past) {w w' : World B S}
    (h : Signed c past w) (hr : Registered c store d w w') : Signed c past w' := by
  cases hr with
  | active heq => exact h.congr heq
  | failed hnone heq =>
      intro s hs
      rw [(trust_values heq).2.1] at hs
      cases hs
  | again k s' hpin hgenuine heq =>
      intro s hs
      obtain ⟨hpin', hsession, -⟩ := trust_values heq
      obtain rfl := Option.some.inj (hsession.symm.trans hs)
      exact ⟨k, hpin', d, hd, hgenuine⟩
  | first k s' hpin hgenuine heq =>
      intro s hs
      obtain ⟨hpin', hsession, -⟩ := trust_values heq
      obtain rfl := Option.some.inj (hsession.symm.trans hs)
      exact ⟨k, hpin', d, hd, hgenuine⟩

theorem signed_step (past : List Draws) (call : Call) (w w' : World B S) (h : Signed c past w)
    (hstep : Stepped c store call w w') : Signed c (past ++ call.draws) w' := by
  have hmore : Signed c (past ++ call.draws) w := by
    intro s hs
    obtain ⟨k, hk, d, hd, hgenuine⟩ := h s hs
    exact ⟨k, hk, d, List.mem_append_left _ hd, hgenuine⟩
  cases hstep with
  | registered d hd w₀ h₀ hr =>
      exact signed_registered (List.mem_append_right _ hd) (hmore.congr h₀) hr
  | renewed _ heq =>
      intro s hs
      rw [(trust_values heq).2.1] at hs
      cases hs
  | same heq => exact hmore.congr heq

/-- Whatever the bridge is and sends: a session is there only if its transcript, with random
numbers that the client has drawn in this run, has been signed under the pinned key. -/
theorem sessions_signed (w : World B S) (hfresh : Fresh w.client) (calls : List Call) :
    Signed c (drawn calls) (run c evp bridge store doubles w calls) := by
  have hstart : Signed c [] w := by
    intro s hs
    rw [(trust_values hfresh.trust).2.1] at hs
    cases hs
  exact run_induction c evp bridge store doubles signed_step hstart calls

def sampleConfig : Config := ⟨some "/run/b.sock".toList, some "bping".toList, none, 0⟩

def sampleClient : Client :=
  { socketPath := "/run/b.sock".toList, agentName := "bping".toList, agentVersion := []
    ttlSeconds := 3600 }

theorem fresh_sampleClient : Fresh sampleClient :=
  ⟨sampleConfig, default, rfl⟩

def sampleDoubles : GeoLookup.Doubles ℕ := ⟨List.length, 0⟩

/-- The store has this key, and nothing contradicts it. -/
structure Bound (c : Crypto Point) (store : PinStore S) (k : List.Vector UInt8 65) (st : S)
    (past : List Draws) (w : World B S) : Prop where
  stays : w.store = st
  load : store.load st = some k
  pin : w.client.pin = none ∨ w.client.pin = some k
  session : ∀ s, w.client.session = some s → ∃ d ∈ past, Genuine c d k s

theorem Bound.congr {k : List.Vector UInt8 65} {st : S} {past : List Draws} {w w' : World B S}
    (h : Bound c store k st past w) (heq : trust w' = trust w) : Bound c store k st past w' := by
  obtain ⟨hpin, hsession, hstore⟩ := trust_values heq
  exact ⟨hstore.trans h.stays, h.load, by rw [hpin]; exact h.pin,
    by rw [hsession]; exact h.session⟩

theorem Bound.pinNow {k : List.Vector UInt8 65} {st : S} {past : List Draws} {w : World B S}
    (h : Bound c store k st past w) : pinNow store true w = some k := by
  rcases h.pin with hpin | hpin
  · rw [LinkRuns.pinNow, hpin, h.stays, if_pos rfl, h.load]
    rfl
  · rw [LinkRuns.pinNow, hpin]
    rfl

theorem bound_registered {k : List.Vector UInt8 65} {st : S} {past : List Draws} {d : Draws}
    (hd : d ∈ past) (hreads : d.storeReads = true) {w w' : World B S}
    (h : Bound c store k st past w) (hr : Registered c store d w w') :
    Bound c store k st past w' := by
  have hnow : pinNow store d.storeReads w = some k := hreads ▸ h.pinNow
  cases hr with
  | active heq => exact h.congr heq
  | failed hnone heq =>
      obtain ⟨hpin, hsession, hstore⟩ := trust_values heq
      exact ⟨hstore.trans h.stays, h.load, Or.inr (hpin.trans hnow), by simp [hsession]⟩
  | again k' s' hpin hgenuine heq =>
      obtain rfl := Option.some.inj (hnow.symm.trans hpin)
      obtain ⟨hpin', hsession, hstore⟩ := trust_values heq
      refine ⟨hstore.trans h.stays, h.load, Or.inr hpin', fun s hs => ?_⟩
      obtain rfl := Option.some.inj (hsession.symm.trans hs)
      exact ⟨d, hd, hgenuine⟩
  | first k' s' hpin hgenuine heq =>
      rw [hnow] at hpin
      cases hpin

/-- Every load of the pin answers. -/
def Reads (past : List Draws) : Prop := ∀ d ∈ past, d.storeReads = true

theorem bound_step (k : List.Vector UInt8 65) (st : S) (past : List Draws) (call : Call)
    (w w' : World B S) (h : Reads past → Bound c store k st past w)
    (hstep : Stepped c store call w w') (hreads : Reads (past ++ call.draws)) :
    Bound c store k st (past ++ call.draws) w' := by
  have hold := h fun d hd => hreads d (List.mem_append_left _ hd)
  have hmore : Bound c store k st (past ++ call.draws) w := by
    refine ⟨hold.stays, hold.load, hold.pin, fun s hs => ?_⟩
    obtain ⟨d, hd, hgenuine⟩ := hold.session s hs
    exact ⟨d, List.mem_append_left _ hd, hgenuine⟩
  cases hstep with
  | registered d hd w₀ h₀ hr =>
      have hd' : d ∈ past ++ call.draws := List.mem_append_right _ hd
      exact bound_registered hd' (hreads d hd') (hmore.congr h₀) hr
  | renewed _ heq =>
      obtain ⟨hpin, hsession, hstore⟩ := trust_values heq
      exact ⟨hstore.trans hold.stays, hold.load, Or.inl hpin, by simp [hsession]⟩
  | same heq => exact hmore.congr heq

theorem Fresh.bound {w : World B S} (hfresh : Fresh w.client) {k : List.Vector UInt8 65}
    (hload : store.load w.store = some k) : Bound c store k w.store [] w := by
  obtain ⟨hpin, hsession, -⟩ := trust_values hfresh.trust
  exact ⟨rfl, hload, Or.inl hpin, by simp [hsession]⟩

/-- A key in the store stays there, is the only pin any process uses, and has signed for
every session, as long as every load answers. -/
theorem pin_continuity (w : World B S) (hfresh : Fresh w.client) (k : List.Vector UInt8 65)
    (hload : store.load w.store = some k) (calls : List Call) (hreads : Reads (drawn calls)) :
    let w' := run c evp bridge store doubles w calls
    w'.store = w.store ∧ (w'.client.pin = none ∨ w'.client.pin = some k) ∧
      ∀ s, w'.client.session = some s → ∃ d ∈ drawn calls, Genuine c d k s := by
  have hbound := run_induction c evp bridge store doubles (bound_step k w.store)
    (fun _ => hfresh.bound hload) calls hreads
  exact ⟨hbound.stays, hbound.pin, hbound.session⟩

/-- No key in the store, and none in the client. -/
structure Blank (store : PinStore S) (w : World B S) : Prop where
  load : store.load w.store = none
  pin : w.client.pin = none
  session : w.client.session = none

theorem Blank.congr {w w' : World B S} (h : Blank store w) (heq : trust w' = trust w) :
    Blank store w' := by
  obtain ⟨hpin, hsession, hstore⟩ := trust_values heq
  exact ⟨hstore ▸ h.load, hpin.trans h.pin, hsession.trans h.session⟩

/-- A store that gives back what it has been given. -/
def Keeps (store : PinStore S) : Prop :=
  ∀ st (k : List.Vector UInt8 65), k.head = 0x04 → store.load (store.save st k).1 = some k

theorem Genuine.head {d : Draws} {k : List.Vector UInt8 65} {s : Session}
    (h : Genuine c d k s) : k.head = 0x04 := by
  obtain ⟨m, bridgeShare, issued, ttl, sig, -, hverify, -⟩ := h
  exact of_decide_eq_true (Bool.and_eq_true_iff.mp hverify).1

theorem blank_registered (hkeeps : Keeps store) {d : Draws} {past : List Draws} (hd : d ∈ past)
    {w w' : World B S} (h : Blank store w) (hr : Registered c store d w w') :
    Blank store w' ∨ ∃ k, Bound c store k w'.store past w' := by
  have hnow : pinNow store d.storeReads w = none := by
    rw [LinkRuns.pinNow, h.pin, h.load, ite_self]
    rfl
  cases hr with
  | active heq => exact Or.inl (h.congr heq)
  | failed hnone heq =>
      obtain ⟨hpin, hsession, hstore⟩ := trust_values heq
      exact Or.inl ⟨hstore ▸ h.load, hpin.trans hnow, hsession⟩
  | again k s hpin hgenuine heq =>
      rw [hnow] at hpin
      cases hpin
  | first k s hpin hgenuine heq =>
      obtain ⟨hpin', hsession, hstore⟩ := trust_values heq
      refine Or.inr ⟨k, rfl, ?_, Or.inr hpin', fun s' hs => ?_⟩
      · rw [hstore]
        exact hkeeps _ _ hgenuine.head
      · obtain rfl := Option.some.inj (hsession.symm.trans hs)
        exact ⟨d, hd, hgenuine⟩

theorem blank_step (hkeeps : Keeps store) (call : Call) (w w' : World B S) (h : Blank store w)
    (hstep : Stepped c store call w w') :
    Blank store w' ∨ ∃ k, Bound c store k w'.store call.draws w' := by
  cases hstep with
  | registered d hd w₀ h₀ hr => exact blank_registered hkeeps hd (h.congr h₀) hr
  | renewed _ heq =>
      obtain ⟨hpin, hsession, hstore⟩ := trust_values heq
      exact Or.inl ⟨hstore ▸ h.load, hpin, hsession⟩
  | same heq => exact Or.inl (h.congr heq)

theorem one_key_bound {k : List.Vector UInt8 65} {st : S} {past : List Draws} {w : World B S}
    (h : Bound c store k st past w) (calls : List Call) (hreads : Reads (past ++ drawn calls)) :
    ∀ first, first <+: calls → ∀ s,
      (run c evp bridge store doubles w first).client.session = some s →
        ∃ d ∈ past ++ drawn calls, Genuine c d k s := by
  intro first hfirst s hs
  have hdrawn : ∀ d ∈ past ++ drawn first, d ∈ past ++ drawn calls := by
    intro d hd
    rcases List.mem_append.mp hd with hd | hd
    · exact List.mem_append_left _ hd
    · obtain ⟨rest, rfl⟩ := hfirst
      rw [drawn, List.flatMap_append]
      exact List.mem_append_right _ (List.mem_append_left _ hd)
  have hrun := run_induction c evp bridge store doubles (bound_step k st) (fun _ => h) first
    fun d hd => hreads d (hdrawn d hd)
  obtain ⟨d, hd, hgenuine⟩ := hrun.session s hs
  exact ⟨d, hdrawn d hd, hgenuine⟩

theorem one_key_blank (hkeeps : Keeps store) {w : World B S} (h : Blank store w)
    (calls : List Call) (hreads : Reads (drawn calls)) :
    ∃ k, ∀ first, first <+: calls → ∀ s,
      (run c evp bridge store doubles w first).client.session = some s →
        ∃ d ∈ drawn calls, Genuine c d k s := by
  induction calls generalizing w with
  | nil =>
      refine ⟨List.Vector.replicate 65 0, fun first hfirst s hs => ?_⟩
      obtain rfl := List.prefix_nil.mp hfirst
      rw [show (run c evp bridge store doubles w []).client.session = none from h.session] at hs
      cases hs
  | cons call calls ih =>
      have hnil : ∀ s, ¬ (run c evp bridge store doubles w []).client.session = some s := by
        intro s hs
        rw [show (run c evp bridge store doubles w []).client.session = none from h.session] at hs
        cases hs
      have hdrawn : drawn (call :: calls) = call.draws ++ drawn calls := List.flatMap_cons
      rw [hdrawn] at hreads
      rcases blank_step hkeeps call w _ h (stepped c evp bridge store doubles call w) with
        hblank | ⟨k, hbound⟩
      · obtain ⟨k, hk⟩ := ih hblank fun d hd => hreads d (List.mem_append_right _ hd)
        refine ⟨k, fun first hfirst s hs => ?_⟩
        cases first with
        | nil => exact absurd hs (hnil s)
        | cons call' first =>
            obtain ⟨rfl, hrest⟩ := List.cons_prefix_cons.mp hfirst
            obtain ⟨d, hd, hgenuine⟩ := hk first hrest s hs
            exact ⟨d, hdrawn ▸ List.mem_append_right _ hd, hgenuine⟩
      · refine ⟨k, fun first hfirst s hs => ?_⟩
        cases first with
        | nil => exact absurd hs (hnil s)
        | cons call' first =>
            obtain ⟨rfl, hrest⟩ := List.cons_prefix_cons.mp hfirst
            rw [hdrawn]
            exact one_key_bound hbound calls hreads first hrest s hs

/-- All sessions of processes that share a store, one after the other, have been signed under
one key, as long as every load answers. -/
theorem one_key (hkeeps : Keeps store) (w : World B S) (hfresh : Fresh w.client)
    (calls : List Call) (hreads : Reads (drawn calls)) :
    ∃ k, ∀ first, first <+: calls → ∀ s,
      (run c evp bridge store doubles w first).client.session = some s →
        ∃ d ∈ drawn calls, Genuine c d k s := by
  cases hload : store.load w.store with
  | none =>
      obtain ⟨hpin, hsession, -⟩ := trust_values hfresh.trust
      exact one_key_blank hkeeps ⟨hload, hpin, hsession⟩ calls hreads
  | some k => exact ⟨k, one_key_bound (hfresh.bound hload) calls hreads⟩

theorem keeps_memory : Keeps blPinStoreMemory := fun _ _ _ => rfl

end Runs

section Requests
variable {D : Type} {doubles : GeoLookup.Doubles D}

/-- A bridge that writes down what is sent to it. -/
def logged (bridge : Bridge B) : Bridge (B × List (List Char)) where
  connect b := (((bridge.connect b.1).1, b.2), (bridge.connect b.1).2)
  answer b json := (((bridge.answer b.1 json).1, b.2 ++ [json]), (bridge.answer b.1 json).2)

/-- The requests so far. -/
def sent (w : World (B × List (List Char)) S) : List (List Char) := w.bridge.2

theorem sent_blConnect (bridge : Bridge B) (w : World (B × List (List Char)) S) :
    sent (blConnect (logged bridge) w).1 = sent w := by
  unfold blConnect
  split_ifs
  · rfl
  · rfl
  · dsimp only
    split_ifs <;> rfl

/-- A request is sent unless there is no connection. -/
theorem sent_blSendRequest (bridge : Bridge B) (w : World (B × List (List Char)) S)
    (json : List Char) :
    let r := blSendRequest (logged bridge) w json
    sent r.1 = sent w ++ [json] ∨ sent r.1 = sent w ∧ ∀ resp, r.2 ≠ .ok resp := by
  have hconnect := sent_blConnect bridge w
  unfold blSendRequest
  generalize blConnect (logged bridge) w = r at hconnect
  obtain ⟨w', _ | st⟩ := r
  · refine Or.inl ?_
    rw [← hconnect]
    dsimp only
    split
    · rfl
    · split <;> rfl
  · exact Or.inr ⟨hconnect, by simp⟩

theorem sent_geoExchange (bridge : Bridge B) (doubles : GeoLookup.Doubles D)
    (w : World (B × List (List Char)) S) (format : BlGeoFormat) :
    sent (geoExchange doubles (logged bridge) format w).1 = sent w ++ [geoJson format] ∨
      sent (geoExchange doubles (logged bridge) format w).1 = sent w := by
  have hsend := sent_blSendRequest bridge w (geoJson format)
  unfold geoExchange
  generalize blSendRequest (logged bridge) w (geoJson format) = r at hsend
  have hsent := hsend.imp id And.left
  obtain ⟨w', st | resp⟩ := r
  · exact hsent
  · dsimp only
    split
    · exact hsent
    · split_ifs <;> exact hsent

/-- One call with a session. -/
theorem quiet_step (c : Crypto Point) (evp : Evp) (bridge : Bridge B) (store : PinStore S)
    (doubles : GeoLookup.Doubles D) {w : World (B × List (List Char)) S} (hs : w.client.session.isSome)
    {call : Call} (hcall : call.draws ≠ []) :
    let w' := step c evp (logged bridge) store doubles w call
    trust w' = trust w ∧ ∃ formats : List BlGeoFormat, sent w' = sent w ++ formats.map geoJson := by
  cases call with
  | register draws =>
      have hsame : (blRegister c evp (logged bridge) store draws w).1 = w := by
        rw [blRegister, if_pos hs]
      exact ⟨congrArg trust hsame, [], (congrArg sent hsame).trans (List.append_nil _).symm⟩
  | geoGet draws format =>
      have hgeo : (blGeoGet doubles c evp (logged bridge) store draws format w).1 =
          (geoExchange doubles (logged bridge) format (blClearBridgeError w)).1 := by
        have hs' : (blClearBridgeError w).client.session.isSome := hs
        rw [blGeoGet]
        simp only [hs', if_true]
      refine ⟨(congrArg trust hgeo).trans (trust_geoExchange (logged bridge) doubles format _), ?_⟩
      rcases sent_geoExchange bridge doubles (blClearBridgeError w) format with h | h
      · exact ⟨[format], (congrArg sent hgeo).trans h⟩
      · exact ⟨[], (congrArg sent hgeo).trans (h.trans (List.append_nil _).symm)⟩
  | renew cfg env => exact absurd rfl hcall

/-- A process that has a session keeps it, and asks for nothing but positions from then on. -/
theorem quiet_session (w : World (B × List (List Char)) S) (hs : w.client.session.isSome)
    (calls : List Call) (hcalls : ∀ call ∈ calls, call.draws ≠ []) :
    let w' := run c evp (logged bridge) store doubles w calls
    trust w' = trust w ∧ ∃ formats : List BlGeoFormat, sent w' = sent w ++ formats.map geoJson := by
  induction calls generalizing w with
  | nil => exact ⟨rfl, [], (List.append_nil _).symm⟩
  | cons call calls ih =>
      obtain ⟨htrust, formats, hsent⟩ := quiet_step c evp bridge store doubles hs
        (hcalls call List.mem_cons_self)
      have hs' : (step c evp (logged bridge) store doubles w call).client.session.isSome := by
        rw [(trust_values htrust).2.1]
        exact hs
      obtain ⟨htrust', formats', hsent'⟩ := ih _ hs' fun call' hcall' =>
        hcalls call' (List.mem_cons_of_mem call hcall')
      refine ⟨htrust'.trans htrust, formats ++ formats', ?_⟩
      rw [run_cons, hsent', hsent, List.map_append, List.append_assoc]

end Requests

end Iputils.LinkRuns

import Iputils.NodeInfo

/-!
# Nonces issued and nonces accepted

`niquery_fill_nonce` and `niquery_check_nonce` in the two ways in which they can be
compiled. With a table every number has a slot for the last nonce that was issued for it,
and the first byte of the table marks the one slot that would be taken for a nonce before
it is filled. With a digest nothing is kept but the last digest. Along any order of calls
the first variant accepts the last nonce of each number, the second every nonce with the
digest of its number.
-/
set_option autoImplicit false

namespace Iputils.NonceTable
open MachineInt ByteBuffer NodeInfo

section Code

/-- `MAX_DUP_CHK` -/
def maxDupChk : ℕ := 65536

/-- Eight bytes of a packet. -/
structure Nonce where
  bytes : List UInt8
  eight : bytes.length = 8

/-- The number in front of a nonce. -/
def Nonce.seq (n : Nonce) : UInt16 := UInt16.ofNat (be16At n.bytes 0).toNat

/-- What six calls of `rand` make. -/
structure Fresh where
  bytes : List UInt8
  six : bytes.length = 6

/-- `nonce_ptr` -/
structure Table where
  bytes : List UInt8
  full : bytes.length = niNonceSize * maxDupChk

/-- `calloc`, and the mark at the front. -/
def niqueryInitNonce : Table where
  bytes := 255 :: List.replicate (niNonceSize * maxDupChk - 1) 0
  full := by rw [List.length_cons, List.length_replicate]; rfl

def slot (seq : UInt16) : ℕ := niNonceSize * (seq.toNat % maxDupChk)

theorem slot_fits (seq : UInt16) : slot seq + niNonceSize ≤ niNonceSize * maxDupChk := by
  have h := Nat.mod_lt seq.toNat (show 0 < maxDupChk by decide)
  unfold slot niNonceSize at *
  omega

theorem length_filled (t : Table) (seq : UInt16) (fresh : Fresh) :
    (store (store t.bytes (slot seq) (be16 seq.toNat)) (slot seq + 2) fresh.bytes).length =
      niNonceSize * maxDupChk := by
  have hfits := slot_fits seq
  have hnumber : (be16 seq.toNat).length = 2 := rfl
  have hfirst : slot seq + (be16 seq.toNat).length ≤ t.bytes.length := by
    rw [t.full]
    unfold niNonceSize at *
    omega
  have hlen := length_store hfirst
  rw [length_store, hlen, t.full]
  rw [hlen, t.full, fresh.six]
  unfold niNonceSize at *
  omega

/-- The two stores of `niquery_fill_nonce`, and the copy to the packet. -/
def fillTable (t : Table) (seq : UInt16) (fresh : Fresh) : Table × List UInt8 :=
  let bytes := store (store t.bytes (slot seq) (be16 seq.toNat)) (slot seq + 2) fresh.bytes
  (⟨bytes, length_filled t seq fresh⟩, bytesAt bytes (slot seq) niNonceSize)

def checkTable (t : Table) (nonce : Nonce) : ℤ :=
  let seq := nonce.seq
  if bytesAt t.bytes (slot seq) niNonceSize ≠ nonce.bytes then -1 else seq.toNat

end Code

section Slots

theorem slot_eq (seq : UInt16) : slot seq = 8 * seq.toNat := by
  rw [slot, Nat.mod_eq_of_lt (show seq.toNat < maxDupChk from seq.toNat_lt)]
  rfl

theorem toNat_seq (n : Nonce) : (n.seq.toNat : ℤ) = be16At n.bytes 0 := by
  have h := be16At_range n.bytes 0
  rw [Nonce.seq, UInt16.toNat_ofNat_of_lt' (show _ < 65536 by omega)]
  omega

theorem fillTable_bytes (t : Table) (seq : UInt16) (fresh : Fresh) :
    (fillTable t seq fresh).1.bytes =
      store t.bytes (slot seq) (be16 seq.toNat ++ fresh.bytes) := by
  have hfits := slot_fits seq
  exact @store_store t.bytes (slot seq) (be16 seq.toNat) fresh.bytes
    (by rw [t.full, fresh.six]; exact hfits)

theorem slot_kept (t : Table) {seq other : UInt16} (fresh : Fresh) (h : other ≠ seq) :
    bytesAt (fillTable t seq fresh).1.bytes (slot other) 8 = bytesAt t.bytes (slot other) 8 := by
  have hfits := slot_fits seq
  have hne : other.toNat ≠ seq.toNat := fun heq => h (UInt16.toNat_inj.mp heq)
  have hlen : (be16 seq.toNat ++ fresh.bytes).length = 8 := by
    rw [List.length_append, fresh.six]
    rfl
  rw [fillTable_bytes]
  refine bytesAt_store_of_disjoint (by rw [hlen, t.full]; exact hfits) ?_
  rw [hlen, slot_eq, slot_eq]
  omega

theorem byteAt_initial {i : ℕ} (h : 0 < i) : byteAt niqueryInitNonce.bytes i = 0 := by
  obtain ⟨j, rfl⟩ := Nat.exists_eq_add_of_lt h
  change byteVal ((List.replicate _ (0 : UInt8)).getD (0 + j) 0) = 0
  rw [List.getD_eq_getElem?_getD, List.getElem?_getD_replicate_default_eq]
  rfl

/-- No nonce is in a slot before one has been issued for its number. -/
theorem slot_initial (n : Nonce) : bytesAt niqueryInitNonce.bytes (slot n.seq) 8 ≠ n.bytes := by
  intro h
  have hbyte : ∀ i < 8, byteAt n.bytes i = byteAt niqueryInitNonce.bytes (slot n.seq + i) := by
    intro i hi
    rw [← h, byteAt, getD_bytesAt _ _ hi]
    rfl
  have hseq := toNat_seq n
  rw [be16At, hbyte 0 (by decide), hbyte 1 (by decide), byteAt_initial (Nat.succ_pos _),
    slot_eq] at hseq
  by_cases hzero : n.seq.toNat = 0
  · -- the mark stands where the number of the nonce is zero
    have hmark : byteAt niqueryInitNonce.bytes 0 = 255 := rfl
    rw [hzero, hmark] at hseq
    omega
  · rw [byteAt_initial (by omega)] at hseq
    omega

end Slots

section Runs

/-- A call of one of the two functions. `old` is what the packet holds where the nonce is
written. -/
inductive Call
  | fill (seq : UInt16) (fresh : Fresh) (old : Nonce)
  | check (nonce : Nonce)

/-- The nonces that have been issued, the last one first, with their numbers. -/
abbrev Issued := List (UInt16 × List UInt8)

structure TableRun where
  table : Table
  issued : Issued

def TableRun.step (r : TableRun) : Call → TableRun
  | .fill seq fresh _ =>
      let filled := fillTable r.table seq fresh
      ⟨filled.1, (seq, filled.2) :: r.issued⟩
  | .check _ => r

def runTable (calls : List Call) : TableRun :=
  calls.foldl TableRun.step ⟨niqueryInitNonce, []⟩

structure DigestRun (secret : List UInt8) where
  cache : NonceCache secret
  issued : Issued

def DigestRun.step {secret : List UInt8} (r : DigestRun secret) : Call → DigestRun secret
  | .fill seq _ old =>
      let filled := niqueryFillNonce r.cache seq.toNat old.bytes
      ⟨filled.1, (seq, filled.2) :: r.issued⟩
  | .check nonce => ⟨(niqueryNonce r.cache nonce.bytes false).1, r.issued⟩

def runDigest (secret : List UInt8) (calls : List Call) : DigestRun secret :=
  calls.foldl DigestRun.step ⟨NonceCache.initial secret, []⟩

/-- A slot holds the last nonce of its number, or what it held at first. -/
def Filed (r : TableRun) : Prop :=
  ∀ seq, bytesAt r.table.bytes (slot seq) 8 =
    (r.issued.lookup seq).getD (bytesAt niqueryInitNonce.bytes (slot seq) 8)

theorem filed_step {r : TableRun} (h : Filed r) (call : Call) : Filed (r.step call) := by
  cases call with
  | check nonce => exact h
  | fill seq fresh old =>
      intro other
      change bytesAt (fillTable r.table seq fresh).1.bytes (slot other) 8 =
        (List.lookup other ((seq, _) :: r.issued)).getD _
      by_cases hsame : other = seq
      · rw [hsame, List.lookup_cons_self, Option.getD_some]
        rfl
      · rw [slot_kept r.table fresh hsame, h other, List.lookup_cons, beq_false_of_ne hsame]

theorem filed_run (calls : List Call) : Filed (runTable calls) := by
  have hrun : ∀ r, Filed r → Filed (calls.foldl TableRun.step r) := by
    induction calls with
    | nil => exact fun r h => h
    | cons call calls ih => exact fun r h => ih (r.step call) (filed_step h call)
  exact hrun _ fun seq => rfl

/-- A nonce is accepted if it is the last one of its number. -/
theorem checkTable_filed {r : TableRun} (h : Filed r) (n : Nonce) :
    checkTable r.table n =
      if r.issued.lookup n.seq = some n.bytes then (n.seq.toNat : ℤ) else -1 := by
  have hslot := h n.seq
  unfold checkTable niNonceSize
  dsimp only
  rw [hslot]
  cases hlast : r.issued.lookup n.seq with
  | none => rw [Option.getD_none, if_pos (slot_initial n), if_neg (by simp)]
  | some m =>
      rw [Option.getD_some]
      by_cases hm : m = n.bytes
      · rw [if_neg (not_not.mpr hm), if_pos (congrArg some hm)]
      · rw [if_pos hm, if_neg fun heq => hm (Option.some.inj heq)]

/-- What is issued: the number and the six bytes. -/
theorem fillTable_issues (t : Table) (seq : UInt16) (fresh : Fresh) :
    (fillTable t seq fresh).2 = be16 seq.toNat ++ fresh.bytes := by
  have hfits := slot_fits seq
  have hlen : (be16 seq.toNat ++ fresh.bytes).length = niNonceSize := by
    rw [List.length_append, fresh.six]
    rfl
  change bytesAt (fillTable t seq fresh).1.bytes (slot seq) niNonceSize = _
  rw [fillTable_bytes]
  have hstored := @bytesAt_store t.bytes (be16 seq.toNat ++ fresh.bytes) (slot seq)
    (by rw [t.full]; omega) 0 niNonceSize (by rw [hlen, Nat.zero_add])
  rw [Nat.add_zero] at hstored
  rw [hstored, ← hlen]
  exact bytesAt_self _

/-- A nonce is accepted as soon as it has been issued. -/
theorem checkTable_issued (t : Table) (seq : UInt16) (fresh : Fresh) {n : Nonce}
    (hn : n.bytes = be16 seq.toNat ++ fresh.bytes) :
    checkTable (fillTable t seq fresh).1 n = seq.toNat := by
  have hseq : n.seq = seq := by
    have hnumber : be16At n.bytes 0 = (seq.toNat : ℤ) % 65536 :=
      be16At_append [] seq.toNat fresh.bytes (by rw [hn]; rfl) rfl
    have htoNat := toNat_seq n
    have hlt := seq.toNat_lt
    refine UInt16.toNat_inj.mp ?_
    omega
  unfold checkTable
  rw [hseq, hn]
  exact if_neg (not_not.mpr (fillTable_issues t seq fresh))

/-- The nonce that has the digest of its number. -/
def signedNonce (secret : List UInt8) (seq : UInt16) : List UInt8 :=
  be16 seq.toNat ++ (nonceDigest secret (be16 seq.toNat)).take 6

theorem length_digest (secret number : List UInt8) :
    ((nonceDigest secret number).take 6).length = 6 := by
  rw [List.length_take, nonceDigest, Md5.length_iputilsMd5Final]
  rfl

/-- What is issued with a digest does not depend on the calls before. -/
theorem niqueryFillNonce_eq {secret : List UInt8} (cache : NonceCache secret) (seq : UInt16)
    (old : Nonce) : (niqueryFillNonce cache seq.toNat old.bytes).2 = signedNonce secret seq := by
  have hnumber : bytesAt (store old.bytes 0 (be16 seq.toNat)) 0 2 = be16 seq.toNat := by
    have hstored := @bytesAt_store old.bytes (be16 seq.toNat) 0 (Nat.zero_le _) 0 2 le_rfl
    exact hstored.trans (bytesAt_self (be16 seq.toNat))
  have hlen : (signedNonce secret seq).length = old.bytes.length := by
    rw [signedNonce, List.length_append, length_digest, old.eight]
    rfl
  change store (store old.bytes 0 (be16 seq.toNat)) 2
    ((cache.refresh (store old.bytes 0 (be16 seq.toNat)) true).digest.take 6) = _
  rw [refresh_digest, hnumber]
  have hjoined := @store_store old.bytes 0 (be16 seq.toNat)
    ((nonceDigest secret (be16 seq.toNat)).take 6) (by rw [length_digest, old.eight]; rfl)
  refine hjoined.trans ?_
  change store old.bytes 0 (signedNonce secret seq) = _
  rw [store, hlen, List.take_zero, Nat.zero_add, List.drop_length, List.nil_append, List.append_nil]

theorem issued_run (secret : List UInt8) (calls : List Call) :
    ∀ p ∈ (runDigest secret calls).issued, p.2 = signedNonce secret p.1 := by
  have hrun : ∀ r : DigestRun secret, (∀ p ∈ r.issued, p.2 = signedNonce secret p.1) →
      ∀ p ∈ (calls.foldl DigestRun.step r).issued, p.2 = signedNonce secret p.1 := by
    induction calls with
    | nil => exact fun r h => h
    | cons call calls ih =>
        intro r h
        refine ih (r.step call) ?_
        cases call with
        | check nonce => exact h
        | fill seq fresh old =>
            exact List.forall_mem_cons.mpr ⟨niqueryFillNonce_eq r.cache seq old, h⟩
  exact hrun _ (List.forall_mem_nil _)

theorem check_signed {secret : List UInt8} (cache : NonceCache secret) (seq : UInt16) :
    niqueryCheckNonce cache (signedNonce secret seq) = seq.toNat := by
  have hnumber : bytesAt (signedNonce secret seq) 0 2 = be16 seq.toNat :=
    bytesAt_append [] (be16 seq.toNat) _ (List.nil_append _).symm rfl rfl
  have hdigest : bytesAt (signedNonce secret seq) 2 6 =
      (nonceDigest secret (be16 seq.toNat)).take 6 :=
    bytesAt_append (be16 seq.toNat) _ [] (by rw [List.append_nil, signedNonce]) rfl
      (length_digest secret _)
  have hseq : be16At (signedNonce secret seq) 0 = (seq.toNat : ℤ) % 65536 :=
    be16At_append [] seq.toNat _ (List.nil_append _).symm rfl
  have hlt := seq.toNat_lt
  rw [niqueryCheckNonce_eq, hnumber, hdigest, if_pos rfl, hseq]
  omega

/-- After any calls the table accepts the last nonce of each number and nothing else, and the
next nonce, which is its number and six bytes, as soon as it has been issued. The digest accepts
the nonces that have it, among them all that have been issued. -/
theorem nonces_authenticate (secret : List UInt8) (calls : List Call) (n : Nonce) :
    checkTable (runTable calls).table n =
        (if (runTable calls).issued.lookup n.seq = some n.bytes then (n.seq.toNat : ℤ) else -1) ∧
      (∀ seq fresh, (fillTable (runTable calls).table seq fresh).2 = be16 seq.toNat ++ fresh.bytes ∧
        ∀ m : Nonce, m.bytes = (fillTable (runTable calls).table seq fresh).2 →
          checkTable (fillTable (runTable calls).table seq fresh).1 m = seq.toNat) ∧
      niqueryCheckNonce (runDigest secret calls).cache n.bytes =
        (if bytesAt n.bytes 2 6 = (nonceDigest secret (bytesAt n.bytes 0 2)).take 6 then
          (n.seq.toNat : ℤ) else -1) ∧
      ∀ p ∈ (runDigest secret calls).issued, p.2 = signedNonce secret p.1 ∧
        ∀ later, niqueryCheckNonce (runDigest secret (calls ++ later)).cache p.2 = p.1.toNat := by
  refine ⟨checkTable_filed (filed_run calls) n, fun seq fresh => ⟨fillTable_issues _ seq fresh,
    fun m hm => checkTable_issued _ seq fresh (hm.trans (fillTable_issues _ seq fresh))⟩, ?_,
    fun p hp => ?_⟩
  · rw [niqueryCheckNonce_eq, toNat_seq]
  · have hsigned := issued_run secret calls p hp
    exact ⟨hsigned, fun later => by rw [hsigned, check_signed]⟩

end Runs

end Iputils.NonceTable

import Iputils.TracerouteText

/-!
# The host of a hop line

`bs_hop_host` takes what stands between the number of the hop and the first time, and
`bs_hop_ip` what stands in its first pair of parentheses. That is the first responder
of the hop if the first probe was answered, the name fits the buffer together with the
address, and the name has neither a star in front nor a parenthesis of its own.
-/
set_option autoImplicit false

namespace Iputils.HopNames
open ScanText HopLine TracerouteText

section Lines

theorem ends_probesText (prev : Option Responder) (ps : List Probe) :
    Ends (probesText prev ps) := by
  cases ps with
  | nil => exact nofun
  | cons p ps =>
      intro c hc
      cases p with
      | none => exact (Option.some.inj hc).symm
      | some a =>
          unfold probesText probeText at hc
          dsimp only at hc
          split_ifs at hc
          · exact (Option.some.inj hc).symm
          · exact (Option.some.inj hc).symm

theorem ip_mem {r : Responder} {c : Char} (hc : addressChar c = false) : c ∉ r.ip := by
  intro h
  rw [r.ip_chars c h] at hc
  cases hc

theorem timeMark_paren (s : List Char) : timeMark (' ' :: '(' :: s) = false := by
  rfl

/-- The only blank of a responder stands in front of the parenthesis. -/
theorem drop_text_blank {r : Responder} {k : ℕ} {rest : List Char} (hk : k < r.text.length)
    (h : ((r.text ++ rest).drop k).head? = some ' ') :
    (r.text ++ rest).drop k = ' ' :: '(' :: (r.ip ++ ')' :: rest) := by
  have hlen : r.text.length = r.name.length + (r.ip.length + 3) := by simp [Responder.text]
  have htext : r.text ++ rest = r.name ++ (' ' :: '(' :: (r.ip ++ ')' :: rest)) := by
    simp [Responder.text]
  rw [htext] at h ⊢
  rcases lt_trichotomy k r.name.length with hlt | rfl | hgt
  · rw [List.head?_drop, List.getElem?_append_left hlt] at h
    exact absurd (List.mem_of_getElem? h) r.name_blank
  · exact List.drop_left
  · exfalso
    obtain ⟨j, hj⟩ : ∃ j, k - r.name.length = j + 1 := ⟨k - r.name.length - 1, by omega⟩
    have htail : '(' :: (r.ip ++ ')' :: rest) = ('(' :: (r.ip ++ [')'])) ++ rest := by simp
    rw [List.head?_drop, List.getElem?_append_right hgt.le, hj, List.getElem?_cons_succ, htail,
      List.getElem?_append_left (by simp; omega)] at h
    have hmem := List.mem_of_getElem? h
    simp [ip_mem (r := r) (c := ' ') (by decide)] at hmem

/-- The scan for a time stops behind the first responder. -/
theorem cutAt_text (r : Responder) (time : ℕ) {rest : List Char} (h : Ends rest) :
    cutAt timeMark (r.text ++ (timeText time ++ rest)) = r.text := by
  refine (cut_iff.mp ⟨⟨_, rfl, .inr (timeMark_timeText time h)⟩, fun k hk hmark => ?_⟩).symm
  have hblank : ((r.text ++ (timeText time ++ rest)).drop k).head? = some ' ' := by
    unfold timeMark at hmark
    rw [Bool.and_eq_true, decide_eq_true_iff] at hmark
    exact hmark.1
  rw [drop_text_blank hk hblank] at hmark
  rw [timeMark_paren] at hmark
  cases hmark

/-- What follows the number on the line of a hop whose first probe was answered. -/
theorem behindNumber_answered (n : ℕ) (a : Answer) (ps : List Probe) :
    ∃ rest, Ends rest ∧ behindNumber (hopLine n (some a :: ps)) =
      (a.responder.text ++ (timeText a.time ++ rest)).dropWhile isBlank := by
  refine ⟨probesText (some a.responder) ps, ends_probesText _ ps, ?_⟩
  unfold hopLine
  rw [behindNumber_number, probesText, probeText, if_neg nofun]
  simp [isBlank]

theorem behindNumber_star (n : ℕ) (ps : List Probe) :
    (behindNumber (hopLine n (none :: ps))).head? = some '*' := by
  unfold hopLine
  rw [behindNumber_number]
  rfl

end Lines

section Host

theorem paren_mem_text (r : Responder) : '(' ∈ r.text := by simp [Responder.text]

/-- The text for no reply, whole or cut off, is no responder. -/
theorem truncated_ne_text (size : ℕ) {s : List Char} (hs : '(' ∉ s) (r : Responder) :
    truncated size s ≠ r.text := by
  intro h
  have hmem := paren_mem_text r
  rw [← h] at hmem
  exact hs (List.mem_of_mem_take hmem)

theorem bsHopHost_star {line : List Char} (size : ℕ) (h : (behindNumber line).head? = some '*') :
    bsHopHost line size = truncated size noReply := if_pos h

/-- A host that is found is the beginning of the line behind the number. -/
theorem bsHopHost_prefix {line : List Char} {size : ℕ} {r : Responder}
    (h : bsHopHost line size = r.text) : r.text <+: behindNumber line := by
  unfold bsHopHost at h
  dsimp only at h
  split_ifs at h
  · exact absurd h (truncated_ne_text size (by decide +kernel) r)
  · exact absurd h (truncated_ne_text size (by decide +kernel) r)
  · rw [← h]
    exact prefix_hostPart size (behindNumber line)

/-- The responder ends in a parenthesis, so that trimming leaves it alone. -/
theorem rdropWhile_text (r : Responder) : r.text.rdropWhile isBlank = r.text := by
  have htext : r.text = (r.name ++ ' ' :: '(' :: r.ip) ++ [')'] := by simp [Responder.text]
  rw [htext, List.rdropWhile_concat_neg]
  decide

theorem length_text (r : Responder) : r.text.length = r.name.length + r.ip.length + 3 := by
  simp [Responder.text]
  omega

/-- The host is the first responder exactly when it has a name that does not look like
a star and fits the buffer. -/
theorem host_eq_text_iff (n : ℕ) (a : Answer) (ps : List Probe) (size : ℕ) :
    bsHopHost (hopLine n (some a :: ps)) size = a.responder.text ↔
      a.responder.name ≠ [] ∧ a.responder.name.head? ≠ some '*' ∧
        a.responder.name.length + a.responder.ip.length + 3 < size := by
  obtain ⟨rest, hrest, hbody⟩ := behindNumber_answered n a ps
  set r := a.responder
  by_cases hname : r.name = []
  · refine iff_of_false (fun h => ?_) (fun h => h.1 hname)
    have hbegin := bsHopHost_prefix h
    rw [hbody, Responder.text, hname, List.nil_append, List.cons_append,
      List.dropWhile_cons_of_pos (by rfl), List.cons_append,
      List.dropWhile_cons_of_neg (by decide)] at hbegin
    exact absurd (List.cons_prefix_cons.mp hbegin).1 (by decide)
  obtain ⟨c, cs, hcs⟩ := List.exists_cons_of_ne_nil hname
  have hblank : c ≠ ' ' := by
    rintro rfl
    exact r.name_blank (by rw [hcs]; exact List.mem_cons_self)
  have hbody' : behindNumber (hopLine n (some a :: ps)) = r.text ++ (timeText a.time ++ rest) := by
    rw [hbody, Responder.text, hcs, List.cons_append, List.cons_append,
      List.dropWhile_cons_of_neg (by simpa [isBlank] using hblank)]
  have hhead : (behindNumber (hopLine n (some a :: ps))).head? = r.name.head? := by
    rw [hbody', Responder.text, hcs]
    rfl
  by_cases hstar : r.name.head? = some '*'
  · refine iff_of_false ?_ (fun h => h.2.1 hstar)
    rw [bsHopHost_star size (hhead.trans hstar)]
    exact truncated_ne_text size (by decide +kernel) r
  have hne : r.text ≠ [] := by simp [Responder.text]
  have hhost : bsHopHost (hopLine n (some a :: ps)) size =
      (truncated size r.text).rdropWhile isBlank := by
    unfold bsHopHost
    dsimp only
    rw [if_neg (by rw [hhead]; exact hstar), hbody', cutAt_text r a.time hrest, if_neg hne]
  rw [hhost, ← length_text r]
  constructor
  · intro h
    have hle : r.text.length ≤ size - 1 := by
      calc r.text.length = ((truncated size r.text).rdropWhile isBlank).length := by rw [h]
        _ ≤ (truncated size r.text).length := (List.rdropWhile_prefix _ _).length_le
        _ ≤ size - 1 := List.length_take_le _ _
    have hpos : 0 < r.text.length := List.length_pos_iff.mpr hne
    exact ⟨hname, hstar, by omega⟩
  · rintro ⟨-, -, hlt⟩
    rw [truncated, List.take_of_length_le (by omega), rdropWhile_text]

end Host

section Address

theorem parenthesised_text_of_plain {r : Responder} (h : '(' ∉ r.name) :
    Parenthesised r.text r.ip := by
  refine ⟨r.name ++ [' '], [], by simp [Responder.text], ?_, ip_mem (by decide)⟩
  simp [h]

/-- The parentheses that `bs_hop_ip` finds first are those of the address, or they
enclose it in the name already. -/
theorem parenthesised_text_iff (r : Responder) :
    Parenthesised r.text r.ip ↔ '(' ∉ r.name ∨ Parenthesised r.name r.ip := by
  constructor
  · rintro ⟨pre, post, heq, hpre, -⟩
    by_contra hnot
    obtain ⟨hmem, hname⟩ := not_or.mp hnot
    obtain ⟨front, back, hsplit, hfront⟩ := List.eq_append_cons_of_mem (not_not.mp hmem)
    have hback : r.ip ++ ')' :: post = back ++ ' ' :: '(' :: (r.ip ++ [')']) := by
      have h₁ := strchr_some.mpr ⟨pre, _, heq, hpre, rfl⟩
      have h₂ := strchr_some.mpr ⟨front, back ++ ' ' :: '(' :: (r.ip ++ [')']),
        (by simp [Responder.text, hsplit] : r.text = _), hfront, rfl⟩
      exact (List.cons.inj (Option.some.inj (h₁.symm.trans h₂))).2
    -- the address has no blank, so it ends inside the name
    obtain ⟨mid, hback', hmid⟩ | ⟨mid, hip, hmid⟩ := List.append_eq_append_iff.mp hback
    · cases mid with
      | nil => exact absurd (List.cons.inj hmid).1 (by decide)
      | cons c mid =>
          obtain ⟨rfl, -⟩ := List.cons.inj hmid
          exact hname ⟨front, mid, by rw [hsplit, hback'], hfront, ip_mem (by decide)⟩
    · cases mid with
      | nil => exact absurd (List.cons.inj hmid).1 (by decide)
      | cons c mid =>
          obtain ⟨rfl, -⟩ := List.cons.inj hmid
          exact absurd (by rw [hip]; simp) (ip_mem (r := r) (c := ' ') (by decide))
  · rintro (h | ⟨pre, post, heq, hpre, hip⟩)
    · exact parenthesised_text_of_plain h
    · exact ⟨pre, post ++ ' ' :: '(' :: (r.ip ++ [')']), by simp [Responder.text, heq], hpre, hip⟩

theorem exists_parenthesised_text (r : Responder) : ∃ q, Parenthesised r.text q := by
  by_cases h : '(' ∈ r.name
  · obtain ⟨front, back, hsplit, hfront⟩ := List.eq_append_cons_of_mem h
    obtain ⟨q, post, hq, hmem⟩ := List.eq_append_cons_of_mem
      (by simp : ')' ∈ back ++ ' ' :: '(' :: (r.ip ++ [')']))
    exact ⟨q, front, post, by rw [← hq]; simp [Responder.text, hsplit], hfront, hmem⟩
  · exact ⟨r.ip, parenthesised_text_of_plain h⟩

theorem ip_eq_iff (tool : Tool) (r : Responder) :
    bsHopIp r.text tool.ipSize = r.ip ↔ '(' ∉ r.name ∨ Parenthesised r.name r.ip := by
  have hne : ¬ (r.text = noReply ∨ r.text = unknown) := by
    have hmem := paren_mem_text r
    rintro (heq | heq)
    · rw [heq] at hmem
      exact absurd hmem (by decide +kernel)
    · rw [heq] at hmem
      exact absurd hmem (by decide +kernel)
  rw [← parenthesised_text_iff]
  have hsize : tool.ipSize = 48 := by cases tool <;> rfl
  have hlen := r.ip_length
  constructor
  · intro hip
    obtain ⟨q, hq⟩ := exists_parenthesised_text r
    by_cases hgroup : 0 < q.length ∧ q.length < tool.ipSize
    · rw [bsHopIp_of_group hne ⟨hq, hgroup⟩] at hip
      rw [← hip]
      exact hq
    · have hnone : ¬ ∃ q, Group tool.ipSize r.text q := by
        rintro ⟨q', hq', hlen'⟩
        rw [hq'.unique hq] at hlen'
        exact hgroup hlen'
      rw [bsHopIp_of_no_group hne hnone, hsize] at hip
      exfalso
      rcases le_or_gt r.text.length 47 with hle | hgt
      · rw [List.take_of_length_le hle] at hip
        exact ip_mem (r := r) (c := '(') (by decide) (by rw [← hip]; exact paren_mem_text r)
      · rw [← hip, List.length_take] at hlen
        omega
  · intro hp
    exact bsHopIp_of_group hne ⟨hp, List.length_pos_iff.mpr r.ip_ne_nil, by omega⟩

end Address

/-- The first answer among the results of a hop. -/
def firstAnswer (probes : List Probe) : Option Answer := probes.findSome? id

/-- The line of a hop gives the first responder and its address, and the text for no
reply only if there was none. -/
def Recovered (tool : Tool) (n : ℕ) (probes : List Probe) : Prop :=
  (bsHopHost (hopLine n probes) tool.hostSize = noReply ↔ ∀ p ∈ probes, p = none) ∧
    ∀ a, firstAnswer probes = some a →
      bsHopHost (hopLine n probes) tool.hostSize = a.responder.text ∧
        hopIp tool (hopLine n probes) = a.responder.ip

/-- A responder that can be read back from a hop line. -/
structure Readable (tool : Tool) (r : Responder) : Prop where
  named : r.name ≠ []
  star : r.name.head? ≠ some '*'
  fits : r.name.length + r.ip.length + 3 < tool.hostSize
  paren : '(' ∉ r.name ∨ Parenthesised r.name r.ip

/-- The identity of a hop is recovered exactly when no probe was answered, or the first
one was, by a responder that can be read back. -/
theorem hop_recovered_iff (tool : Tool) (n : ℕ) (probes : List Probe) (h : probes ≠ []) :
    Recovered tool n probes ↔
      (∀ p ∈ probes, p = none) ∨ ∃ a ps, probes = some a :: ps ∧ Readable tool a.responder := by
  obtain ⟨p, ps, rfl⟩ := List.exists_cons_of_ne_nil h
  cases p with
  | none =>
      have hhost : bsHopHost (hopLine n (none :: ps)) tool.hostSize = noReply := by
        rw [bsHopHost_star _ (behindNumber_star n ps)]
        cases tool <;> rfl
      constructor
      · exact fun hrec => .inl (hrec.1.mp hhost)
      · rintro (hnone | ⟨a, ps', heq, -⟩)
        · refine ⟨iff_of_true hhost hnone, fun a ha => ?_⟩
          obtain ⟨p, hp, hpa⟩ := List.exists_of_findSome?_eq_some ha
          rw [hnone p hp] at hpa
          cases hpa
        · cases heq
  | some a =>
      have hfirst : firstAnswer (some a :: ps) = some a := rfl
      have hsome : ¬ ∀ p ∈ some a :: ps, p = none := fun hall => by
        cases hall (some a) List.mem_cons_self
      constructor
      · intro hrec
        obtain ⟨hhost, hip⟩ := hrec.2 a hfirst
        obtain ⟨hname, hstar, hfits⟩ := (host_eq_text_iff n a ps _).mp hhost
        rw [hopIp, hhost] at hip
        exact .inr ⟨a, ps, rfl, hname, hstar, hfits, (ip_eq_iff tool a.responder).mp hip⟩
      · rintro (hnone | ⟨a', ps', heq, hread⟩)
        · exact absurd hnone hsome
        · obtain ⟨rfl, rfl⟩ : a = a' ∧ ps = ps' := by simpa using heq
          have hhost := (host_eq_text_iff n a ps tool.hostSize).mpr
            ⟨hread.named, hread.star, hread.fits⟩
          have hne : bsHopHost (hopLine n (some a :: ps)) tool.hostSize ≠ noReply := by
            rw [hhost]
            intro heq
            have hmem := paren_mem_text a.responder
            rw [heq] at hmem
            exact absurd hmem (by decide +kernel)
          refine ⟨iff_of_false hne hsome, fun a' ha' => ?_⟩
          cases Option.some.inj (hfirst.symm.trans ha')
          refine ⟨hhost, ?_⟩
          rw [hopIp, hhost]
          exact (ip_eq_iff tool a.responder).mpr hread.paren

/-- The results of a hop that answers one probe of two. -/
def answeredOnce : List Probe := [some ⟨gateway, 1234⟩, none]

theorem hop_recovered_gateway :
    Recovered .bmtr 3 answeredOnce ↔ (∀ p ∈ answeredOnce, p = none) ∨
      ∃ a ps, answeredOnce = some a :: ps ∧ Readable .bmtr a.responder :=
  hop_recovered_iff .bmtr 3 answeredOnce nofun

/-- A hop whose first probe is lost passes for one that does not answer at all. -/
theorem late_answer_lost :
    hopLine 3 [none, some ⟨gateway, 1234⟩] = " 3  * 10.0.0.1 (10.0.0.1)  1.234 ms".toList ∧
      bsHopHost (hopLine 3 [none, some ⟨gateway, 1234⟩]) 80 = noReply ∧
      ¬ Recovered .btraceroute 3 [none, some ⟨gateway, 1234⟩] := by
  refine ⟨by decide +kernel, by decide +kernel, fun hrec => ?_⟩
  have hall := hrec.1.mp (by decide +kernel)
  cases hall (some ⟨gateway, 1234⟩) (by simp)

end Iputils.HopNames

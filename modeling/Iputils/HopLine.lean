import Iputils.ScanText

/-!
# Host and address of a traceroute hop

`bs_hop_host` cuts the name of the responder out of a line that traceroute has
printed, and `bs_hop_ip` takes the address out of that name. The address becomes
a part of shell commands, unquoted in `ping` and between single quotes in
`curl`. Names come from reverse DNS, so nothing in a line can be trusted. The
last result says for which lines the address has only characters of a numeric
address: a name with a parenthesis of its own, or one that fills the buffer, is
enough for it to have others.
-/
set_option autoImplicit false

namespace Iputils.HopLine
open ScanText

/-- A successful `sscanf (s, " %lf %7s%n", ...)`: the number, the word and the rest. -/
def scanTime (s : List Char) : Option (List Char × List Char × List Char) :=
  (floatItem (s.dropWhile isSpace)).bind fun item =>
    let s := item.2.dropWhile isSpace
    let unit := (s.takeWhile fun c => !isSpace c).take 7
    if unit = [] then none else some (item.1, unit, s.drop unit.length)

/-- A round-trip time stands here. -/
def timeMark (s : List Char) : Bool :=
  s.head? = some ' ' && ((scanTime s).any fun item => item.2.1 = "ms".toList)

/-- What `snprintf` or `strncpy` leaves of a text in a buffer. -/
def truncated (size : ℕ) (s : List Char) : List Char := s.take (size - 1)

def isBlank (c : Char) : Bool := c = ' '

def noReply : List Char := "* * *".toList

def unknown : List Char := "?".toList

/-- The line behind the hop number. -/
def behindNumber (line : List Char) : List Char :=
  ((line.dropWhile isBlank).dropWhile fun c => !isBlank c).dropWhile isBlank

def bsHopHost (line : List Char) (outsz : ℕ) : List Char :=
  let start := behindNumber line
  if start.head? = some '*' then truncated outsz noReply
  else
    let token := cutAt timeMark start
    if token = [] then truncated outsz unknown
    else (truncated outsz token).rdropWhile isBlank

def bsHopIp (host : List Char) (ipOutsz : ℕ) : List Char :=
  if host = noReply ∨ host = unknown then []
  else
    match strchr '(' host with
    | none => truncated ipOutsz host
    | some lp =>
        match strchr ')' lp.tail with
        | none => truncated ipOutsz host
        | some rp =>
            let il := lp.tail.length - rp.length
            if 0 < il ∧ il < ipOutsz then lp.tail.take il else truncated ipOutsz host

/-- The programs that parse hop lines. -/
inductive Tool
  | bping
  | btraceroute
  | bmtr
deriving Repr, DecidableEq

def Tool.hostSize : Tool → ℕ
  | .bping => 64
  | .btraceroute | .bmtr => 80

def Tool.ipSize : Tool → ℕ
  | .bping | .btraceroute | .bmtr => 48

def hopIp (tool : Tool) (line : List Char) : List Char :=
  bsHopIp (bsHopHost line tool.hostSize) tool.ipSize

/-- The command of `probe_hop`. -/
def pingCommand (ip : List Char) : List Char :=
  truncated 256 ("ping -c 1 -W 1 ".toList ++ ip ++ " 2>&1".toList)

/-- The command of `bs_geolocate`. -/
def curlCommand (ip : List Char) : List Char :=
  truncated 256 ("curl -s --max-time 3 'http://ip-api.com/json/".toList ++ ip ++
    "?fields=status,city,country,lat,lon'".toList)

/-- The characters of a numeric address. -/
def addressChar (c : Char) : Bool := isHexDigit c || c = '.' || c = ':' || c = '%'

def AddressText (s : List Char) : Prop := ∀ c ∈ s, addressChar c

instance (s : List Char) : Decidable (AddressText s) :=
  List.decidableBAll (fun c => addressChar c = true) s

/-- Characters that have a meaning to the shell. -/
def shellSpecials : List Char := " \t\n;&|<>()$`\\\"'*?[]#~!\x7b\x7d".toList

def shellSpecial (c : Char) : Bool := c ∈ shellSpecials

/-- The address is numeric, and to the shell both commands are what they are
without it. -/
def ShellSafe (tool : Tool) (line : List Char) : Prop :=
  AddressText (hopIp tool line) ∧
  (pingCommand (hopIp tool line)).filter shellSpecial = (pingCommand []).filter shellSpecial ∧
  (curlCommand (hopIp tool line)).filter shellSpecial = (curlCommand []).filter shellSpecial

/-- The text in the first pair of parentheses. -/
def Parenthesised (host q : List Char) : Prop :=
  ∃ pre post, host = pre ++ '(' :: (q ++ ')' :: post) ∧ '(' ∉ pre ∧ ')' ∉ q

/-- Parentheses whose content `bs_hop_ip` takes for the address. -/
def Group (size : ℕ) (host q : List Char) : Prop :=
  Parenthesised host q ∧ 0 < q.length ∧ q.length < size

/-- The host has no address, a numeric one in parentheses, or none in parentheses
and only numeric characters where the buffer for the address is filled from. -/
def NumericHost (size : ℕ) (host : List Char) : Prop :=
  host = unknown ∨ (∃ q, Group size host q ∧ AddressText q) ∨
    (¬ ∃ q, Group size host q) ∧ AddressText (host.take (size - 1))

/-- `body` is what follows the hop number of a line. -/
def Body (line body : List Char) : Prop :=
  ∃ lead number gap rest rest', Munch isBlank line lead rest ∧
    Munch (fun c => !isBlank c) rest number rest' ∧ Munch isBlank rest' gap body

/-- `host` is the name in the body of a line, as far as it fits the buffer. -/
def HostPart (size : ℕ) (body host : List Char) : Prop :=
  ∃ token, Cut timeMark body token ∧ Trim isBlank (token.take (size - 1)) host

/-- The line has no reply, or a name that gives a numeric address. -/
def NumericLine (tool : Tool) (line : List Char) : Prop :=
  ∃ body, Body line body ∧
    (body.head? = some '*' ∨
      ∃ host, HostPart tool.hostSize body host ∧ NumericHost tool.ipSize host)

theorem body_iff {line body : List Char} : Body line body ↔ body = behindNumber line := by
  constructor
  · intro hx
    rcases hx with ⟨lead, number, gap, rest, rest', h₁, h₂, h₃⟩
    rw [(munch_iff.mp h₃).2, (munch_iff.mp h₂).2, (munch_iff.mp h₁).2]
    rfl
  · intro heq
    subst heq
    exact ⟨_, _, _, _, _, munch_iff.mpr ⟨rfl, rfl⟩, munch_iff.mpr ⟨rfl, rfl⟩,
      munch_iff.mpr ⟨rfl, rfl⟩⟩

theorem hostPart_iff {size : ℕ} {body host : List Char} :
    HostPart size body host ↔ host = (truncated size (cutAt timeMark body)).rdropWhile isBlank := by
  constructor
  · intro hx
    rcases hx with ⟨token, hc, ht⟩
    rw [trim_iff.mp ht, cut_iff.mp hc]
    rfl
  · intro heq
    subst heq
    exact ⟨_, cut_iff.mpr rfl, trim_iff.mpr rfl⟩

/-- The two searches of `bs_hop_ip` find the first pair of parentheses. -/
theorem parenthesised_iff {host q : List Char} : Parenthesised host q ↔
    ∃ lp rp, strchr '(' host = some lp ∧ strchr ')' lp.tail = some rp ∧
      q = lp.tail.take (lp.tail.length - rp.length) := by
  constructor
  · intro hx
    rcases hx with ⟨pre, post, rfl, hpre, hq⟩
    refine ⟨'(' :: (q ++ ')' :: post), ')' :: post, strchr_some.mpr ⟨pre, _, rfl, hpre, rfl⟩,
      strchr_some.mpr ⟨q, post, rfl, hq, rfl⟩, ?_⟩
    simp
  · intro hx
    rcases hx with ⟨lp, rp, hlp, hrp, rfl⟩
    obtain ⟨pre, rest, rfl, hpre, rfl⟩ := strchr_some.mp hlp
    obtain ⟨q, post, hrest, hq, rfl⟩ := strchr_some.mp hrp
    rw [List.tail_cons] at hrest
    subst hrest
    exact ⟨pre, post, by simp, hpre, by simpa using hq⟩

theorem Parenthesised.unique {host q q' : List Char} (h : Parenthesised host q)
    (h' : Parenthesised host q') : q = q' := by
  obtain ⟨lp, rp, h₁, h₂, rfl⟩ := parenthesised_iff.mp h
  obtain ⟨lp', rp', h₁', h₂', rfl⟩ := parenthesised_iff.mp h'
  obtain rfl := Option.some.inj (h₁.symm.trans h₁')
  obtain rfl := Option.some.inj (h₂.symm.trans h₂')
  rfl

/-- The address is what stands in the parentheses, if that is an address at all. -/
theorem bsHopIp_of_group {size : ℕ} {host q : List Char} (hne : ¬ (host = noReply ∨ host = unknown))
    (h : Group size host q) : bsHopIp host size = q := by
  obtain ⟨hp, hlen⟩ := h
  obtain ⟨lp, rp, hlp, hrp, hq⟩ := parenthesised_iff.mp hp
  have hlen' : q.length = lp.tail.length - rp.length := by
    rw [hq, List.length_take]
    omega
  rw [hlen'] at hlen
  simp only [bsHopIp, if_neg hne, hlp, hrp, if_pos hlen, hq]

theorem bsHopIp_of_no_group {size : ℕ} {host : List Char}
    (hne : ¬ (host = noReply ∨ host = unknown)) (h : ¬ ∃ q, Group size host q) :
    bsHopIp host size = host.take (size - 1) := by
  cases hlp : strchr '(' host with
  | none => simp only [bsHopIp, if_neg hne, hlp, truncated]
  | some lp =>
      cases hrp : strchr ')' lp.tail with
      | none => simp only [bsHopIp, if_neg hne, hlp, hrp, truncated]
      | some rp =>
          have hlen : ¬ (0 < lp.tail.length - rp.length ∧ lp.tail.length - rp.length < size) := by
            intro hlen
            refine h ⟨lp.tail.take (lp.tail.length - rp.length), ?_, ?_⟩
            · exact parenthesised_iff.mpr ⟨lp, rp, hlp, hrp, rfl⟩
            · rw [List.length_take]
              omega
          simp only [bsHopIp, if_neg hne, hlp, hrp, if_neg hlen, truncated]

theorem addressText_bsHopIp {size : ℕ} {host : List Char} (h₀ : host ≠ noReply) :
    AddressText (bsHopIp host size) ↔ NumericHost size host := by
  by_cases h₁ : host = unknown
  · have hip : bsHopIp host size = [] := if_pos (Or.inr h₁)
    rw [hip]
    exact ⟨fun _ => Or.inl h₁, fun _ => by simp [AddressText]⟩
  · have hne : ¬ (host = noReply ∨ host = unknown) := not_or.mpr ⟨h₀, h₁⟩
    by_cases hg : ∃ q, Group size host q
    · obtain ⟨q, hq⟩ := hg
      rw [bsHopIp_of_group hne hq]
      constructor
      · exact fun h => Or.inr (Or.inl ⟨q, hq, h⟩)
      · intro hx
        rcases hx with h | ⟨q', hq', h⟩ | ⟨hnone, -⟩
        · exact absurd h h₁
        · rw [hq.1.unique hq'.1]
          exact h
        · exact absurd ⟨q, hq⟩ hnone
    · rw [bsHopIp_of_no_group hne hg]
      constructor
      · exact fun h => Or.inr (Or.inr ⟨hg, h⟩)
      · intro hx
        rcases hx with h | ⟨q, hq, -⟩ | ⟨-, h⟩
        · exact absurd h h₁
        · exact absurd ⟨q, hq⟩ hg
        · exact h

theorem prefix_hostPart (size : ℕ) (body : List Char) :
    (truncated size (cutAt timeMark body)).rdropWhile isBlank <+: body := by
  have hcut : cutAt timeMark body <+: body := by
    obtain ⟨post, heq, -⟩ := (cut_iff.mpr (rfl : cutAt timeMark body = _)).split
    exact ⟨post, heq.symm⟩
  exact (List.rdropWhile_prefix _ _).trans ((List.take_prefix _ _).trans hcut)

/-- Only a line without a reply gives the text for no reply. -/
theorem hostPart_ne_noReply (size : ℕ) {body : List Char} (h : body.head? ≠ some '*') :
    (truncated size (cutAt timeMark body)).rdropWhile isBlank ≠ noReply := by
  intro heq
  obtain ⟨rest, hrest⟩ := prefix_hostPart size body
  rw [heq] at hrest
  rw [← hrest] at h
  exact h rfl

theorem hopIp_no_reply {tool : Tool} {line : List Char}
    (h : (behindNumber line).head? = some '*') : hopIp tool line = [] := by
  have hhost : bsHopHost line tool.hostSize = noReply := by
    rw [bsHopHost, if_pos h]
    cases tool <;> rfl
  rw [hopIp, hhost]
  exact if_pos (Or.inl rfl)

theorem numericHost_nil (size : ℕ) : NumericHost size [] := by
  refine Or.inr (Or.inr ⟨?_, by simp [AddressText]⟩)
  intro hx
  rcases hx with ⟨q, ⟨pre, post, heq, -⟩, -⟩
  simp at heq

/-- The address is numeric exactly for numeric lines. -/
theorem addressText_hopIp (tool : Tool) (line : List Char) :
    AddressText (hopIp tool line) ↔ NumericLine tool line := by
  have hline : NumericLine tool line ↔ ((behindNumber line).head? = some '*' ∨ NumericHost tool.ipSize
      ((truncated tool.hostSize (cutAt timeMark (behindNumber line))).rdropWhile isBlank)) := by
    simp only [NumericLine, body_iff, exists_eq_left, hostPart_iff]
  rw [hline]
  by_cases hstar : (behindNumber line).head? = some '*'
  · rw [hopIp_no_reply hstar]
    exact ⟨fun _ => Or.inl hstar, fun _ => by simp [AddressText]⟩
  · simp only [hstar, false_or]
    by_cases htoken : cutAt timeMark (behindNumber line) = []
    · have hhost : bsHopHost line tool.hostSize = unknown := by
        simp only [bsHopHost, if_neg hstar, if_pos htoken]
        cases tool <;> rfl
      have hip : hopIp tool line = [] := by
        rw [hopIp, hhost]
        exact if_pos (Or.inr rfl)
      have hnil : (truncated tool.hostSize []).rdropWhile isBlank = [] := by simp [truncated]
      rw [hip, htoken, hnil]
      exact ⟨fun _ => numericHost_nil _, fun _ => by simp [AddressText]⟩
    · have hhost : bsHopHost line tool.hostSize =
          (truncated tool.hostSize (cutAt timeMark (behindNumber line))).rdropWhile isBlank := by
        simp only [bsHopHost, if_neg hstar, if_neg htoken]
      rw [hopIp, hhost]
      exact addressText_bsHopIp (hostPart_ne_noReply _ hstar)

theorem addressChar_not_special {c : Char} (h : addressChar c) : ¬ shellSpecial c := by
  have hall : shellSpecials.all (fun s => !addressChar s) = true := by decide +kernel
  intro hs
  have hc := List.all_eq_true.mp hall c (of_decide_eq_true hs)
  simp [h] at hc

theorem length_bsHopIp (host : List Char) {size : ℕ} (h : 0 < size) :
    (bsHopIp host size).length < size := by
  have hcut : (truncated size host).length < size := by
    simp only [truncated, List.length_take]
    omega
  unfold bsHopIp
  split_ifs
  · exact h
  · split
    · exact hcut
    · split
      · exact hcut
      · dsimp only
        split_ifs with hil
        · simp only [List.length_take]
          omega
        · exact hcut

/-- A numeric address brings nothing into the commands that the shell would act on. -/
theorem commands_unchanged {tool : Tool} {line : List Char} (h : AddressText (hopIp tool line)) :
    (pingCommand (hopIp tool line)).filter shellSpecial = (pingCommand []).filter shellSpecial ∧
    (curlCommand (hopIp tool line)).filter shellSpecial = (curlCommand []).filter shellSpecial := by
  have hlen : (hopIp tool line).length < 48 := by
    have hpos : 0 < tool.ipSize := by cases tool <;> decide
    have hlt := length_bsHopIp (bsHopHost line tool.hostSize) hpos
    cases tool <;> exact hlt
  have hnone : (hopIp tool line).filter shellSpecial = [] :=
    List.filter_eq_nil_iff.mpr fun c hc => addressChar_not_special (h c hc)
  constructor
  · unfold pingCommand truncated
    rw [List.take_of_length_le (by simp; omega), List.take_of_length_le (by decide)]
    simp only [List.filter_append, hnone, List.filter_nil]
  · unfold curlCommand truncated
    rw [List.take_of_length_le (by simp; omega), List.take_of_length_le (by decide)]
    simp only [List.filter_append, hnone, List.filter_nil]

/-- The commands are safe exactly for numeric lines. -/
theorem shellSafe_iff (tool : Tool) (line : List Char) :
    ShellSafe tool line ↔ NumericLine tool line := by
  rw [← addressText_hopIp]
  exact ⟨fun h => h.1, fun h => ⟨h, commands_unchanged h⟩⟩

example : hopIp .bmtr " 3  gw.example (10.0.0.1)  1.234 ms".toList = "10.0.0.1".toList := by
  decide +kernel

/-- A reverse name with parentheses of its own. -/
def hostileLine : List Char := " 3  x(;reboot) (10.0.0.1)  1.234 ms".toList

theorem hostile_name_not_safe : hopIp .bmtr hostileLine = ";reboot".toList ∧
    pingCommand (hopIp .bmtr hostileLine) = "ping -c 1 -W 1 ;reboot 2>&1".toList ∧
    ¬ ShellSafe .bmtr hostileLine := by
  have hip : ¬ AddressText (hopIp .bmtr hostileLine) := by decide +kernel
  exact ⟨by decide +kernel, by decide +kernel, fun h => hip h.1⟩

end Iputils.HopLine

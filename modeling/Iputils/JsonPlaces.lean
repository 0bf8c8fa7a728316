import Iputils.NumeralText

/-!
# Where the members of an object stand

A reader of JSON forgets where it has found a member. Here the members of an object are
listed with the text from each key on and the text behind each value.
-/
set_option autoImplicit false

namespace Iputils.JsonPlaces
open JsonText NumeralText

structure Place where
  here : List Char
  key : List Char
  value : Json
  behind : List Char

def Place.pair (m : Place) : List Char × Json := (m.key, m.value)

def parseMember (fuel : ℕ) (cs : List Char) : Option Place := do
  let inner ← expect ['"'] cs
  let (key, rest) ← parseChars inner
  let rest ← expect [':'] (skipWs rest)
  let (value, behind) ← parseValue fuel (skipWs rest)
  some ⟨cs, key, value, behind⟩

def placesFrom : ℕ → List Char → List Place
  | 0, _ => []
  | fuel + 1, cs =>
      match parseMember fuel cs with
      | none => []
      | some m =>
          match expect [','] (skipWs m.behind) with
          | none => [m]
          | some cs => m :: placesFrom fuel (skipWs cs)

/-- The members of an object, in the order of the text. -/
def places (cs : List Char) : List Place :=
  match expect ['\x7b'] (skipWs cs) with
  | none => []
  | some inner => placesFrom cs.length (skipWs inner)

theorem parseMembers_member (fuel : ℕ) (cs : List Char) :
    parseMembers (fuel + 1) cs = (parseMember fuel cs).bind fun m =>
      match expect ['\x7d'] (skipWs m.behind) with
      | some cs => some ([m.pair], cs)
      | none =>
          (expect [','] (skipWs m.behind)).bind fun cs =>
            (parseMembers fuel (skipWs cs)).map fun p => (m.pair :: p.1, p.2) := by
  rw [parseMembers, parseMember]
  cases expect ['"'] cs with
  | none => rfl
  | some inner =>
      simp only [Option.bind_eq_bind, Option.bind_some]
      cases parseChars inner with
      | none => rfl
      | some p =>
          simp only [Option.bind_some]
          cases expect [':'] (skipWs p.2) with
          | none => rfl
          | some rest =>
              simp only [Option.bind_some]
              cases parseValue fuel (skipWs rest) with
              | none => rfl
              | some q =>
                  simp only [Option.bind_some]
                  cases expect ['\x7d'] (skipWs q.2) with
                  | some cs => rfl
                  | none =>
                      cases expect [','] (skipWs q.2) with
                      | none => rfl
                      | some cs =>
                          simp only [Option.bind_some]
                          cases parseMembers fuel (skipWs cs) <;> rfl

/-- What ends a value shows directly behind it. -/
theorem ends_of_expect {c : Char} {cs r : List Char} (hc : c ∈ enders)
    (h : expect [c] (skipWs cs) = some r) : Ends cs := by
  have hskip : skipWs cs = c :: r := expect_append h
  intro d hd
  cases cs with
  | nil => cases hd
  | cons e cs =>
      obtain rfl := Option.some.inj hd
      cases hws : isWs e with
      | true =>
          simp only [isWs, Bool.or_eq_true, decide_eq_true_eq] at hws
          obtain ((rfl | rfl) | rfl) | rfl := hws <;> decide
      | false =>
          rw [skipWs, List.dropWhile_cons_of_neg (by simp [hws])] at hskip
          rw [(List.cons.inj hskip).1]
          exact hc

/-- A member that has been read, and that another one or the end of the object follows. -/
structure Place.Read (m : Place) : Prop where
  parsed : ∃ fuel, parseMember fuel m.here = some m
  ends : Ends m.behind

theorem here_of_parseMember {fuel : ℕ} {cs : List Char} {m : Place}
    (h : parseMember fuel cs = some m) : m.here = cs := by
  obtain ⟨inner, -, h⟩ := Option.bind_eq_some_iff.mp h
  obtain ⟨p, -, h⟩ := Option.bind_eq_some_iff.mp h
  obtain ⟨rest, -, h⟩ := Option.bind_eq_some_iff.mp h
  obtain ⟨q, -, h⟩ := Option.bind_eq_some_iff.mp h
  exact (Option.some.inj h) ▸ rfl

theorem read_of_parseMember {fuel : ℕ} {cs : List Char} {m : Place}
    (h : parseMember fuel cs = some m) (hm : Ends m.behind) : m.Read :=
  ⟨⟨fuel, by rw [here_of_parseMember h, h]⟩, hm⟩

/-- The places of the members are those of the members that are read. -/
theorem placesFrom_spec {fuel : ℕ} {cs rest : List Char} {ms : List (List Char × Json)}
    (h : parseMembers fuel cs = some (ms, rest)) :
    (placesFrom fuel cs).map Place.pair = ms ∧ ∀ m ∈ placesFrom fuel cs, m.Read := by
  induction fuel generalizing cs ms rest with
  | zero => simp [parseMembers] at h
  | succ fuel ih =>
      rw [parseMembers_member] at h
      obtain ⟨m, hm, h⟩ := Option.bind_eq_some_iff.mp h
      rw [placesFrom, hm]
      dsimp only at h ⊢
      split at h
      · next cs' hbrace =>
          have hcomma : expect [','] (skipWs m.behind) = none := by
            rw [expect_append hbrace]
            rfl
          obtain ⟨rfl, rfl⟩ := Prod.mk.inj (Option.some.inj h)
          rw [hcomma]
          refine ⟨rfl, List.forall_mem_singleton.mpr ?_⟩
          exact read_of_parseMember hm (ends_of_expect (by decide) hbrace)
      · obtain ⟨cs', hcomma, h⟩ := Option.bind_eq_some_iff.mp h
        obtain ⟨p, hp, heq⟩ := Option.map_eq_some_iff.mp h
        obtain ⟨rfl, rfl⟩ := Prod.mk.inj heq
        obtain ⟨hpairs, hread⟩ := ih hp
        rw [hcomma]
        refine ⟨by rw [List.map_cons, hpairs], List.forall_mem_cons.mpr ⟨?_, hread⟩⟩
        exact read_of_parseMember hm (ends_of_expect (by decide) hcomma)

theorem places_spec {cs : List Char} {ms : List (List Char × Json)}
    (h : parse cs = some (.obj ms)) :
    (places cs).map Place.pair = ms ∧ ∀ m ∈ places cs, m.Read := by
  unfold parse at h
  split at h
  · next value rest hvalue =>
      split_ifs at h
      obtain rfl := Option.some.inj h
      cases hskip : skipWs cs with
      | nil =>
          rw [hskip] at hvalue
          simp [parseValue] at hvalue
      | cons c inner =>
          rw [hskip] at hvalue
          obtain rfl := parseValue_obj hvalue
          have hplaces : places cs = placesFrom cs.length (skipWs inner) := by
            rw [places, hskip]
            rfl
          rw [parseValue, if_pos rfl] at hvalue
          rw [hplaces]
          split at hvalue
          · next cs' hend =>
              obtain ⟨hms, -⟩ := Prod.mk.inj (Option.some.inj hvalue)
              have hempty : placesFrom cs.length (skipWs inner) = [] := by
                rw [expect_append hend]
                cases cs.length <;> rfl
              rw [hempty, ← Json.obj.inj hms]
              exact ⟨rfl, List.forall_mem_nil _⟩
          · obtain ⟨p, hp, heq⟩ := Option.map_eq_some_iff.mp hvalue
            obtain ⟨hms, -⟩ := Prod.mk.inj heq
            rw [← Json.obj.inj hms]
            exact placesFrom_spec hp
  · cases h

/-- Only a number is read as a number. -/
theorem parseValue_number {fuel : ℕ} {cs t r : List Char}
    (h : parseValue fuel cs = some (.num t, r)) : parseNumber cs = some (t, r) := by
  cases fuel with
  | zero => simp [parseValue] at h
  | succ fuel =>
      cases cs with
      | nil => simp [parseValue] at h
      | cons c cs =>
          rw [parseValue] at h
          split_ifs at h
          · split at h
            · simp at h
            · simp at h
          · split at h
            · simp at h
            · simp at h
          · simp at h
          · obtain ⟨p, hp, heq⟩ := Option.map_eq_some_iff.mp h
            obtain ⟨ht, rfl⟩ := Prod.mk.inj heq
            rw [hp, ← Json.num.inj ht]
          · simp [parseName] at h

theorem skipWs_append (cs : List Char) :
    ∃ ws, cs = ws ++ skipWs cs ∧ ∀ c ∈ ws, isWs c = true :=
  ⟨cs.takeWhile isWs, List.takeWhile_append_dropWhile.symm, fun _ hc => List.mem_takeWhile_imp hc⟩

/-- A number stands directly behind the white space that follows the colon. -/
theorem Place.Read.number {m : Place} {key t cs : List Char} (hm : m.Read) (hkey : Clean key)
    (hhere : m.here = '"' :: (key ++ '"' :: ':' :: cs)) (hvalue : m.value = .num t) :
    ∃ ws, cs = ws ++ (t ++ m.behind) ∧ (∀ c ∈ ws, isWs c = true) ∧ JsonNumber t := by
  obtain ⟨fuel, h⟩ := hm.parsed
  have hquote : expect ['"'] ('"' :: (key ++ '"' :: ':' :: cs)) =
      some (key ++ '"' :: ':' :: cs) := rfl
  have hcolon : expect [':'] (skipWs (':' :: cs)) = some cs := rfl
  rw [hhere, parseMember, hquote] at h
  simp only [Option.bind_eq_bind, Option.bind_some, parseChars_clean hkey, hcolon] at h
  obtain ⟨p, hp, h⟩ := Option.bind_eq_some_iff.mp h
  obtain rfl := Option.some.inj h
  obtain ⟨value, behind⟩ := p
  obtain rfl : value = .num t := hvalue
  obtain ⟨happend, ht⟩ := parseNumber_number (parseValue_number hp)
  obtain ⟨ws, hws, hall⟩ := skipWs_append cs
  exact ⟨ws, by rw [← happend, ← hws], hall, ht⟩

end Iputils.JsonPlaces

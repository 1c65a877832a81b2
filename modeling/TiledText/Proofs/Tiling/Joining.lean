import TiledText.Proofs.Tiling.Tags

/-!
# Joining and the tags

A joined line has the tags of the first line followed by those of the second.
Two things can prevent the joining of nonempty tilings. The lengths may not fit
an offset together, and the second tiling may begin with a hairline, which would
stop where the first tiling does.
-/

namespace TiledText

/-!
## Disorder at a seam

Moving the stops of the second line keeps them in order among themselves, so it is only at
the seam that joined tokens can be out of order.
-/

theorem firstDisorder?_append {before : List Token} (after : List Token) {next : Token}
    (increasing : Increasing before) (nonempty : before ≠ [])
    (back : ∀ token ∈ before.getLast?, next.stop ≤ token.stop) :
    firstDisorder? (before ++ next :: after) = some before.length := by
  induction before with
  | nil =>
      exact absurd rfl nonempty
  | cons a rest ih =>
      have split := List.pairwise_cons.mp increasing
      cases rest with
      | nil =>
          have seam : next.stop ≤ a.stop := back a (by simp)
          simp [firstDisorder?, seam]
      | cons b more =>
          have step : ¬ b.stop ≤ a.stop := UInt32.not_le.mpr (split.1 b (List.mem_cons_self ..))
          have later := ih split.2 (List.cons_ne_nil _ _) (by simpa using back)
          rw [List.cons_append] at later
          simp [firstDisorder?, step, later]

namespace Tiling

theorem ofTokens_eq_ok_iff {tokens : Array Token} {t : Tiling} :
    ofTokens tokens = .ok t ↔ t.tokens = tokens := by
  unfold ofTokens
  split
  case h_1 index found =>
    constructor
    · intro impossible
      cases impossible
    · intro same
      have sorted := (firstDisorder?_eq_none_iff _).mpr t.ordered
      rw [same, found] at sorted
      cases sorted
  case h_2 sorted =>
    constructor
    · intro same
      cases same
      rfl
    · intro same
      cases t with
      | mk _ _ =>
          cases same
          rfl

theorem ofTokens_of_disorder {tokens : Array Token} {index : Nat}
    (found : firstDisorder? tokens.toList = some index) :
    ofTokens tokens = .error (.unordered index) := by
  unfold ofTokens
  split
  case h_1 other same =>
    rw [found] at same
    cases same
    rfl
  case h_2 sorted =>
    rw [found] at sorted
    cases sorted

theorem toList_joinTokens (t u : Tiling) :
    (t.joinTokens u).toList = t.toList ++ u.toList.map (Token.grow t.length) := by
  simp [joinTokens, toList]

theorem stop_grow_of_mem_second {t u : Tiling} (fits : Fits t.length u.length) {token : Token}
    (member : token ∈ u.toList) :
    (token.grow t.length).stop.toNat = token.stop.toNat + t.length.toNat := by
  have swapped : Fits u.length t.length := by
    unfold Fits at *
    omega
  exact toNat_stop_grow swapped (u.stop_le_length (Array.mem_def.mpr member))

/-!
## When a joining succeeds
-/

/-- The tokens of two nonempty tilings follow on from each other, hairlines excepted. -/
theorem increasing_joinTokens {t u : Tiling} (fits : Fits t.length u.length)
    (plain : u.hairline = false) : Increasing (t.joinTokens u).toList := by
  rw [toList_joinTokens]
  refine List.pairwise_append.mpr ⟨t.ordered, ?_, ?_⟩
  · refine List.pairwise_map.mpr (u.ordered.imp_of_mem ?_)
    intro a b left right lt
    rw [UInt32.lt_iff_toNat_lt] at *
    rw [stop_grow_of_mem_second fits left, stop_grow_of_mem_second fits right]
    omega
  · intro a left b right
    obtain ⟨origin, member, rfl⟩ := List.mem_map.mp right
    have bound := (length_le_iff t t.length.toNat).mp (Nat.le_refl _) a left
    have wide := stop_ne_zero plain member
    rw [UInt32.lt_iff_toNat_lt, stop_grow_of_mem_second fits member]
    omega

theorem append_eq_ofTokens {t u : Tiling} (fits : Fits t.length u.length)
    (first : t.isEmpty = false) (second : u.isEmpty = false) :
    t.append u = ofTokens (t.joinTokens u) := by
  unfold append
  rw [if_neg (by simp [second]), if_neg (by simp [first]), if_pos fits]

theorem append_eq_ok {t u : Tiling} (fits : Fits t.length u.length)
    (clear : t.isEmpty = true ∨ u.hairline = false) : ∃ v, t.append u = .ok v := by
  cases second : u.isEmpty with
  | true =>
      exact ⟨t, by simp [append, second]⟩
  | false =>
      cases first : t.isEmpty with
      | true =>
          exact ⟨u, by simp [append, first, second]⟩
      | false =>
          rw [first] at clear
          have plain := clear.resolve_left Bool.false_ne_true
          rw [append_eq_ofTokens fits first second]
          exact ⟨⟨t.joinTokens u, increasing_joinTokens fits plain⟩, ofTokens_eq_ok_iff.mpr rfl⟩

/-- A hairline at the seam is reported as the token out of order. -/
theorem append_of_hairline {t u : Tiling} (fits : Fits t.length u.length)
    (nonempty : t.isEmpty = false) (thin : u.hairline = true) :
    t.append u = .error (.unordered t.size) := by
  cases list : u.toList with
  | nil =>
      simp [hairline, list] at thin
  | cons first rest =>
      have zero : first.stop = 0 := by simpa [hairline, list] using thin
      have known : u.isEmpty = false := by
        cases bare : u.isEmpty with
        | false =>
            rfl
        | true =>
            rw [isEmpty_iff.mp bare] at list
            cases list
      have last : ∀ token ∈ t.toList.getLast?, (first.grow t.length).stop ≤ token.stop := by
        intro token member
        have reached : t.length = token.stop := by
          unfold length reach
          rw [← Array.getLast?_toList, show t.tokens.toList.getLast? = some token from member]
        simp [Token.grow, zero, reached]
      have seam := firstDisorder?_append (rest.map (Token.grow t.length)) t.ordered
        (toList_ne_nil nonempty) last
      rw [append_eq_ofTokens fits nonempty known]
      apply ofTokens_of_disorder
      rw [toList_joinTokens, list, List.map_cons]
      exact seam

theorem append_cases {t u v : Tiling} (joined : t.append u = .ok v) :
    (u.isEmpty = true ∧ v = t) ∨ (u.isEmpty = false ∧ t.isEmpty = true ∧ v = u) ∨
      (u.isEmpty = false ∧ t.isEmpty = false ∧ Fits t.length u.length ∧
        v.tokens = t.joinTokens u) := by
  unfold append at joined
  split at joined
  case isTrue bare =>
    cases joined
    exact Or.inl ⟨bare, rfl⟩
  case isFalse filled =>
    have second : u.isEmpty = false := by simpa using filled
    split at joined
    case isTrue bare =>
      cases joined
      exact Or.inr (Or.inl ⟨second, bare, rfl⟩)
    case isFalse filled =>
      have first : t.isEmpty = false := by simpa using filled
      split at joined
      case isTrue fits =>
        exact Or.inr (Or.inr ⟨second, first, fits, ofTokens_eq_ok_iff.mp joined⟩)
      case isFalse long =>
        cases joined

/-!
## The law
-/

theorem tags_append {t u v : Tiling} (joined : t.append u = .ok v) :
    v.tags = t.tags ++ u.tags := by
  rcases append_cases joined with ⟨bare, same⟩ | ⟨_, bare, same⟩ | ⟨_, _, fits, tokens⟩
  · rw [same, isEmpty_iff.mp bare, tags_empty, List.append_nil]
  · rw [same, isEmpty_iff.mp bare, tags_empty, List.nil_append]
  · apply List.ext_getElem?
    intro i
    have reads : v.tags[i]? = tagAt? (t.joinTokens u).toList i := by
      rw [getElem?_tags, toList, tokens]
    rw [reads, toList_joinTokens, tagAt?_append, List.getElem?_append]
    split
    case isTrue before =>
      rw [← getElem?_tags, List.getElem?_eq_getElem before, Option.some_or]
    case isFalse beyond =>
      have le := Nat.le_of_not_lt beyond
      rw [← getElem?_tags, List.getElem?_eq_none_iff.mpr le, Option.none_or, getElem?_tags]
      refine tagAt?_map (fun token => rfl) ?_
      intro token member
      rw [length_tags] at le ⊢
      rw [stop_grow_of_mem_second fits member]
      omega

theorem hairline_append {t u v : Tiling} (joined : t.append u = .ok v)
    (first : t.hairline = false) (second : u.hairline = false) : v.hairline = false := by
  rcases append_cases joined with ⟨_, same⟩ | ⟨_, _, same⟩ | ⟨_, known, _, tokens⟩
  · rw [same]
    exact first
  · rw [same]
    exact second
  · cases list : t.toList with
    | nil =>
        exact absurd list (toList_ne_nil known)
    | cons token rest =>
        have listed : v.toList = token :: (rest ++ u.toList.map (Token.grow t.length)) := by
          rw [toList, tokens, toList_joinTokens, list, List.cons_append]
        simpa [hairline, listed, list] using first

end Tiling
end TiledText

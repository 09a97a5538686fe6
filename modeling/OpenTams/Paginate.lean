import OpenTams.Timerange

/-!
# Fetching all pages

`collectRemaining` of `tamsctl` follows the next tokens of a listing. It refuses
a page that names its own token as the next one, and stops at a number of pages if
that is positive. A cycle of two tokens or more passes the first guard, so that
without a cap the loop has no end there. How a page's items are read and written
as JSON is an argument.
-/

namespace OpenTams

/-! ## tamsctl -/

structure ListPage where
  items : Str
  nextToken : Str
  deriving DecidableEq

/-- `json.Unmarshal` to and `json.Marshal` of `[]json.RawMessage`. -/
structure RawArray (ε : Type) where
  unmarshal : Str → Except ε (List Str)
  marshal : List Str → Except ε Str

inductive CollectError (ε : Type) where
  | fetch (e : ε)
  | parseItems (e : ε)
  | notAdvancing (token : Str)
  | maxPages (n : Int64) (token : Str)
  | mergePages (e : ε)

section
variable {ε : Type} (J : RawArray ε) (fetch : Str → Except ε ListPage) (maxPages : Int64)

def decodeItems (raw : Str) : Except (CollectError ε) (List Str) :=
  if raw = [] then .ok [] else (J.unmarshal raw).mapError .parseItems

def mergePages (all : List Str) : Except (CollectError ε) ListPage :=
  match J.marshal all with
  | .error e => .error (.mergePages e)
  | .ok merged => .ok ⟨merged, []⟩

/-- The loop; `none` if the fuel does not suffice. -/
def collectLoop : Nat → Str → Str → Int64 → List Str → Option (Except (CollectError ε) ListPage)
  | 0, _, _, _, _ => none
  | fuel + 1, prevToken, token, pages, all =>
    if token = [] then some (mergePages J all)
    else if token = prevToken then some (.error (.notAdvancing token))
    else if 0 < maxPages && maxPages ≤ pages then some (.error (.maxPages maxPages token))
    else match fetch token with
      | .error e => some (.error (.fetch e))
      | .ok page => match decodeItems J page.items with
        | .error e => some (.error e)
        | .ok items => collectLoop fuel token page.nextToken (pages + 1) (all ++ items)

def collectRemaining (fuel : Nat) (first : ListPage) : Option (Except (CollectError ε) ListPage) :=
  match decodeItems J first.items with
  | .error e => some (.error e)
  | .ok items => collectLoop J fetch maxPages fuel [] first.nextToken 1 items

end

/-! ## The token graph -/

section
variable {ε : Type} (J : RawArray ε) (fetch : Str → Except ε ListPage)

inductive Leads : Str → List ListPage → Prop
  | stop : Leads [] []
  | next {token : Str} {page : ListPage} {pages : List ListPage} (hne : token ≠ []) (hfetch : fetch token = .ok page)
      (hrest : Leads page.nextToken pages) : Leads token (page :: pages)

/-- The token has a page, other than the one before, whose items can be read. -/
structure Advances (prevToken token : Str) (page : ListPage) : Prop where
  nonempty : token ≠ []
  fresh : token ≠ prevToken
  fetched : fetch token = .ok page
  decoded : ∃ items, decodeItems J page.items = .ok items

/-- The walk from a token comes to one that does not advance: the empty one, one that is its own next token, or one
whose page cannot be fetched or read. -/
inductive TokensEnd : Str → Str → Prop
  | here {prevToken token : Str} (h : ∀ page, ¬ Advances J fetch prevToken token page) : TokensEnd prevToken token
  | later {prevToken token : Str} {page : ListPage} (h : Advances J fetch prevToken token page)
      (hrest : TokensEnd token page.nextToken) : TokensEnd prevToken token

end

/-! ## One turn of the loop -/

section
variable {ε : Type} {J : RawArray ε} {fetch : Str → Except ε ListPage} {maxPages : Int64} {fuel : Nat}
  {prevToken token : Str} {pages : Int64} {all : List Str} {page : ListPage}

theorem collectLoop_advances (fuel : Nat) (all : List Str) (h : Advances J fetch prevToken token page)
    (hmax : ¬ (0 < maxPages ∧ maxPages ≤ pages)) :
    ∃ items, decodeItems J page.items = .ok items ∧
      collectLoop J fetch maxPages (fuel + 1) prevToken token pages all =
        collectLoop J fetch maxPages fuel token page.nextToken (pages + 1) (all ++ items) := by
  obtain ⟨hne, hfresh, hfetch, items, hitems⟩ := h
  refine ⟨items, hitems, ?_⟩
  rw [collectLoop, if_neg hne, if_neg hfresh, if_neg (by simpa using hmax), hfetch]
  dsimp only
  rw [hitems]

theorem collectLoop_capped (h : Advances J fetch prevToken token page) (hmax : 0 < maxPages ∧ maxPages ≤ pages) :
    collectLoop J fetch maxPages (fuel + 1) prevToken token pages all = some (.error (.maxPages maxPages token)) := by
  rw [collectLoop, if_neg h.nonempty, if_neg h.fresh, if_pos (by simpa using hmax)]

theorem collectLoop_ends (h : ∀ page, ¬ Advances J fetch prevToken token page) :
    ∃ r, collectLoop J fetch maxPages (fuel + 1) prevToken token pages all = some r := by
  rw [collectLoop]
  by_cases hne : token = []
  · rw [if_pos hne]
    exact ⟨_, rfl⟩
  rw [if_neg hne]
  by_cases hfresh : token = prevToken
  · rw [if_pos hfresh]
    exact ⟨_, rfl⟩
  rw [if_neg hfresh]
  by_cases hmax : (decide (0 < maxPages) && decide (maxPages ≤ pages)) = true
  · rw [if_pos hmax]
    exact ⟨_, rfl⟩
  rw [if_neg hmax]
  cases hfetch : fetch token with
  | error e => exact ⟨_, rfl⟩
  | ok page =>
    dsimp only
    cases hitems : decodeItems J page.items with
    | error e => exact ⟨_, rfl⟩
    | ok items => exact absurd ⟨hne, hfresh, hfetch, items, hitems⟩ (h page)

/-! ## Termination -/

/-- With a positive cap the pages left bound the number of turns. -/
theorem collectLoop_bounded (hmax : 0 < maxPages) (hpages : 1 ≤ pages.toInt)
    (hfuel : (maxPages.toInt - pages.toInt).toNat < fuel) :
    ∃ r, collectLoop J fetch maxPages fuel prevToken token pages all = some r := by
  induction fuel generalizing prevToken token pages all with
  | zero => omega
  | succ fuel ih =>
    by_cases hadv : ∃ page, Advances J fetch prevToken token page
    · obtain ⟨page, hadv⟩ := hadv
      by_cases hcap : maxPages ≤ pages
      · exact ⟨_, collectLoop_capped hadv ⟨hmax, hcap⟩⟩
      obtain ⟨items, -, heq⟩ := collectLoop_advances fuel all hadv fun h => hcap h.2
      rw [heq]
      rw [Int64.le_iff_toInt_le] at hcap
      have hlt := maxPages.toInt_lt
      have hsucc : (pages + 1).toInt = pages.toInt + 1 := by
        rw [Int64.toInt_add, Int64.toInt_one]
        exact Int.bmod_eq_of_le (by omega) (by omega)
      exact ih (by omega) (by omega)
    · exact collectLoop_ends fun page h => hadv ⟨page, h⟩

theorem TokensEnd.collectLoop (h : TokensEnd J fetch prevToken token) (maxPages pages : Int64) (all : List Str) :
    ∃ fuel r, collectLoop J fetch maxPages fuel prevToken token pages all = some r := by
  induction h generalizing pages all with
  | here h => exact ⟨1, collectLoop_ends h⟩
  | later h hrest ih =>
    by_cases hmax : 0 < maxPages ∧ maxPages ≤ pages
    · exact ⟨1, _, collectLoop_capped h hmax⟩
    · obtain ⟨items, hitems⟩ := h.decoded
      obtain ⟨fuel, r, hr⟩ := ih (pages + 1) (all ++ items)
      obtain ⟨items', hitems', heq⟩ := collectLoop_advances fuel all h hmax
      cases hitems.symm.trans hitems'
      exact ⟨fuel + 1, r, heq.trans hr⟩

theorem ends_of_collectLoop (hmax : ¬ 0 < maxPages) {r : Except (CollectError ε) ListPage}
    (h : collectLoop J fetch maxPages fuel prevToken token pages all = some r) : TokensEnd J fetch prevToken token := by
  induction fuel generalizing prevToken token pages all with
  | zero => cases h
  | succ fuel ih =>
    by_cases hadv : ∃ page, Advances J fetch prevToken token page
    · obtain ⟨page, hadv⟩ := hadv
      obtain ⟨items, -, heq⟩ := collectLoop_advances fuel all hadv
        fun h => hmax h.1
      exact .later hadv (ih (heq.symm.trans h))
    · exact .here fun page h => hadv ⟨page, h⟩

/-! ## Success -/

theorem collectLoop_ok {out : ListPage}
    (h : collectLoop J fetch maxPages fuel prevToken token pages all = some (.ok out)) :
    ∃ (followed : List ListPage) (items : List (List Str)), Leads fetch token followed ∧
      List.Forall₂ (fun page items => decodeItems J page.items = .ok items) followed items ∧
      mergePages J (all ++ items.flatten) = .ok out := by
  induction fuel generalizing prevToken token pages all with
  | zero => cases h
  | succ fuel ih =>
    rw [collectLoop] at h
    by_cases hne : token = []
    · subst hne
      rw [if_pos rfl] at h
      refine ⟨[], [], .stop, .nil, ?_⟩
      rw [List.flatten_nil, List.append_nil]
      exact Option.some.inj h
    rw [if_neg hne] at h
    split at h
    · cases h
    split at h
    · cases h
    cases hfetch : fetch token with
    | error e =>
      rw [hfetch] at h
      cases h
    | ok page =>
      rw [hfetch] at h
      dsimp only at h
      cases hitems : decodeItems J page.items with
      | error e =>
        rw [hitems] at h
        cases h
      | ok items =>
        rw [hitems] at h
        obtain ⟨followed, rest, hfollows, hdecoded, hmerged⟩ := ih h
        refine ⟨page :: followed, items :: rest, .next hne hfetch hfollows, .cons hitems hdecoded, ?_⟩
        rwa [List.flatten_cons, ← List.append_assoc]

end

/-- The loop ends, and on success the items are those of the first page and of the pages up to the empty token. -/
structure CollectsAll {ε : Type} (J : RawArray ε) (fetch : Str → Except ε ListPage) (maxPages : Int64)
    (first : ListPage) : Prop where
  terminates : ∃ fuel r, collectRemaining J fetch maxPages fuel first = some r
  merged : ∀ fuel out, collectRemaining J fetch maxPages fuel first = some (.ok out) →
    ∃ (followed : List ListPage) (items : List (List Str)), Leads fetch first.nextToken followed ∧
      List.Forall₂ (fun page items => decodeItems J page.items = .ok items) (first :: followed) items ∧
      J.marshal items.flatten = .ok out.items ∧ out.nextToken = []

theorem mergePages_ok {ε : Type} {J : RawArray ε} {all : List Str} {out : ListPage} (h : mergePages J all = .ok out) :
    J.marshal all = .ok out.items ∧ out.nextToken = [] := by
  unfold mergePages at h
  cases hm : J.marshal all with
  | error e =>
    rw [hm] at h
    cases h
  | ok merged =>
    rw [hm] at h
    cases h
    exact ⟨rfl, rfl⟩

/-- **Fetching all pages stops**, exactly where the number of pages is capped, the first page cannot be read, or the
walk of the tokens ends. -/
theorem collectRemaining_stops_iff {ε : Type} (J : RawArray ε) (fetch : Str → Except ε ListPage) (maxPages : Int64)
    (first : ListPage) :
    CollectsAll J fetch maxPages first ↔
      0 < maxPages ∨ (∀ items, decodeItems J first.items ≠ .ok items) ∨ TokensEnd J fetch [] first.nextToken := by
  cases hfirst : decodeItems J first.items with
  | error e =>
    have hrun : ∀ fuel, collectRemaining J fetch maxPages fuel first = some (.error e) := by
      intro fuel
      rw [collectRemaining, hfirst]
    refine iff_of_true ⟨⟨0, _, hrun 0⟩, fun fuel out h => ?_⟩ (Or.inr (Or.inl nofun))
    cases (hrun fuel).symm.trans h
  | ok items =>
    have hrun : ∀ fuel, collectRemaining J fetch maxPages fuel first =
        collectLoop J fetch maxPages fuel [] first.nextToken 1 items := by
      intro fuel
      rw [collectRemaining, hfirst]
    constructor
    · intro h
      obtain ⟨fuel, r, hr⟩ := h.terminates
      rw [hrun] at hr
      by_cases hmax : 0 < maxPages
      · exact Or.inl hmax
      · exact Or.inr (Or.inr (ends_of_collectLoop hmax hr))
    · intro h
      constructor
      · rcases h with hmax | hno | hends
        · exact ⟨_, hrun _ ▸ collectLoop_bounded hmax (by decide) (Nat.lt_succ_self _)⟩
        · exact absurd rfl (hno items)
        · obtain ⟨fuel, r, hr⟩ := hends.collectLoop maxPages 1 items
          exact ⟨fuel, r, (hrun fuel).trans hr⟩
      · intro fuel out hout
        rw [hrun] at hout
        obtain ⟨followed, rest, hfollows, hdecoded, hmerged⟩ := collectLoop_ok hout
        exact ⟨followed, items :: rest, hfollows, .cons hfirst hdecoded, mergePages_ok hmerged⟩

/-! ## Two tokens that name each other -/

def emptyArray : RawArray Unit where
  unmarshal raw := if raw = lit "[]" then .ok [] else .error ()
  marshal items := if items = [] then .ok (lit "[]") else .error ()

def twoTokens (token : Str) : Except Unit ListPage :=
  if token = lit "a" then .ok ⟨lit "[]", lit "b"⟩
  else if token = lit "b" then .ok ⟨lit "[]", lit "a"⟩
  else .error ()

theorem twoTokens_loop (fuel : Nat) :
    (∀ prevToken, prevToken ≠ lit "a" → ∀ pages,
      collectLoop emptyArray twoTokens 0 fuel prevToken (lit "a") pages [] = none) ∧
    ∀ prevToken, prevToken ≠ lit "b" → ∀ pages,
      collectLoop emptyArray twoTokens 0 fuel prevToken (lit "b") pages [] = none := by
  induction fuel with
  | zero => exact ⟨fun _ _ _ => rfl, fun _ _ _ => rfl⟩
  | succ fuel ih =>
    constructor
    · intro prevToken hprev pages
      rw [collectLoop, if_neg (by decide), if_neg hprev.symm, if_neg (by simp)]
      exact ih.2 (lit "a") (by decide) (pages + 1)
    · intro prevToken hprev pages
      rw [collectLoop, if_neg (by decide), if_neg hprev.symm, if_neg (by simp)]
      exact ih.1 (lit "b") (by decide) (pages + 1)

/-- Without a cap the loop never returns. -/
theorem twoTokens_forever :
    (∀ fuel, collectRemaining emptyArray twoTokens 0 fuel ⟨lit "[]", lit "a"⟩ = none) ∧
      ¬ CollectsAll emptyArray twoTokens 0 ⟨lit "[]", lit "a"⟩ := by
  have hnone : ∀ fuel, collectRemaining emptyArray twoTokens 0 fuel ⟨lit "[]", lit "a"⟩ = none :=
    fun fuel => (twoTokens_loop fuel).1 [] (by decide) 1
  refine ⟨hnone, fun h => ?_⟩
  obtain ⟨fuel, r, hr⟩ := h.terminates
  cases (hnone fuel).symm.trans hr

end OpenTams

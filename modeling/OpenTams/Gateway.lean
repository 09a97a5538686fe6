import OpenTams.ClientRange
import OpenTams.NetUrl
import OpenTams.PathWalk
import OpenTams.SegmentRead

/-!
# The HLS gateway

`tools/opentamsplay` hides each presigned URL behind a `.ts` link of its own and
redirects the link to it. The target of a redirect is checked against the base of
the object store: the check compares paths as they stand, a client removes their
dot segments first.
-/

namespace OpenTams.Gateway

open PathWalk

/-! ## targetWithinBase -/

/-- `strings.EqualFold`; what it does beyond ASCII is left open. -/
structure CaseFolding where
  equalFold : Str → Str → Bool
  ascii : ∀ s t : Str, (∀ c ∈ s, c < 128) → (∀ c ∈ t, c < 128) →
    (equalFold s t = true ↔ NetUrl.toLower s = NetUrl.toLower t)

/-- The text of an error of `net/url` is left out. -/
inductive TargetError where
  | targetNotUrl
  | baseNotUrl
  | notAbsolute
  | userinfo
  | scheme (target base : Str)
  | host (target base : Str)
  | path (target base : Str)
  deriving DecidableEq

def TargetError.text : TargetError → Msg
  | targetNotUrl => [.text "target is not a URL: "]
  | baseNotUrl => [.text "base is not a URL: "]
  | notAbsolute => [.text "target is not absolute"]
  | userinfo => [.text "target carries userinfo"]
  | scheme t b => [.text "scheme ", .quoted t, .text " is not ", .quoted b]
  | host t b => [.text "host ", .quoted t, .text " is not ", .quoted b]
  | path t b => [.text "path ", .quoted t, .text " is outside ", .quoted b]

section
variable (F : CaseFolding) (L : NetUrl.HostLiterals)

def compareUrls (t b : NetUrl.Url) : Except TargetError Unit :=
  let basePath := trimSuffix (ch '/') b.path
  if !t.isAbs then .error .notAbsolute
  else if t.user then .error .userinfo
  else if !F.equalFold t.scheme b.scheme then .error (.scheme t.scheme b.scheme)
  else if !F.equalFold t.host b.host then .error (.host t.host b.host)
  else if basePath ≠ [] && t.path ≠ basePath && !(basePath ++ [ch '/']).isPrefixOf t.path then
    .error (.path t.path basePath)
  else .ok ()

def targetWithinBase (target base : Str) : Except TargetError Unit :=
  match NetUrl.parse L target with
  | none => .error .targetNotUrl
  | some t => match NetUrl.parse L base with
    | none => .error .baseNotUrl
    | some b => compareUrls F t b

end

/-! ## Where a client goes -/

/-- What a segment of a path, unescaped, does; a dot may be escaped. -/
def dotMove (segment : Str) : Move Str :=
  if segment = lit "." then .stay
  else if segment = lit ".." then .up
  else .down segment

def unescaped (segment : Str) : Str := (NetUrl.unescape .path segment).getD segment

def move (segment : Str) : Move Str := dotMove (unescaped segment)

def segments (rawPath : Str) : List Str := (rawPath.splitOn (ch '/')).tail

/-- A path that ends in a dot segment ends in a slash once it is removed. -/
def moves (rawPath : Str) : List (Move Str) :=
  let all := (segments rawPath).map move
  if all.getLast? = some .stay ∨ all.getLast? = some .up then all ++ [.down []] else all

def resolved (rawPath : Str) : List Str := walk [] (moves rawPath)

/-- The way to the directory that a base names, with or without a slash at its end. -/
def baseMoves (rawPath : Str) : List (Move Str) := (segments (trimSuffix (ch '/') rawPath)).map move

def directory (rawPath : Str) : List Str := walk [] (baseMoves rawPath)

/-- The location of `t` has the scheme and the host of `b`, and a path that is the one of `b` or below it. -/
structure Inside (F : CaseFolding) (t b : NetUrl.Url) : Prop where
  scheme : t.scheme = b.scheme
  host : F.equalFold t.host b.host = true
  path : directory b.rawPath <+: resolved t.rawPath

/-! ## What the check admits -/

section
variable {F : CaseFolding} {L : NetUrl.HostLiterals} {t b : NetUrl.Url} {target base raw path : Str} {ds : List Str}

structure Within (F : CaseFolding) (t b : NetUrl.Url) : Prop where
  isAbs : t.scheme ≠ []
  user : t.user = false
  scheme : F.equalFold t.scheme b.scheme = true
  host : F.equalFold t.host b.host = true
  path : trimSuffix (ch '/') b.path = [] ∨ t.path = trimSuffix (ch '/') b.path ∨
    trimSuffix (ch '/') b.path ++ [ch '/'] <+: t.path

theorem compareUrls_ok_iff : compareUrls F t b = .ok () ↔ Within F t b := by
  have hpath : (decide (trimSuffix (ch '/') b.path ≠ []) && decide (t.path ≠ trimSuffix (ch '/') b.path) &&
      !(trimSuffix (ch '/') b.path ++ [ch '/']).isPrefixOf t.path) = false ↔
      (trimSuffix (ch '/') b.path = [] ∨ t.path = trimSuffix (ch '/') b.path ∨
        trimSuffix (ch '/') b.path ++ [ch '/'] <+: t.path) := by
    rw [← List.isPrefixOf_iff_prefix]
    simp [or_iff_not_imp_left]
  constructor
  · intro h
    unfold compareUrls at h
    grind [Within, NetUrl.Url.isAbs]
  · intro h
    unfold compareUrls
    grind [Within, NetUrl.Url.isAbs]

theorem targetWithinBase_ok_iff : targetWithinBase F L target base = .ok () ↔
    ∃ t b, NetUrl.parse L target = some t ∧ NetUrl.parse L base = some b ∧ Within F t b := by
  unfold targetWithinBase
  cases NetUrl.parse L target with
  | none => simp
  | some t => cases NetUrl.parse L base with
    | none => simp
    | some b => simp [compareUrls_ok_iff]

theorem Within.scheme_eq (h : Within F t b) (ht : NetUrl.parse L target = some t) (hb : NetUrl.parse L base = some b) :
    t.scheme = b.scheme := by
  have hlower : ∀ s : Str, (∀ c ∈ s, c < 128 ∧ NetUrl.lowerByte c = c) → NetUrl.toLower s = s := by
    intro s hs
    rw [NetUrl.toLower, List.map_congr_left fun c hc => (hs c hc).2, List.map_id']
  have hts := NetUrl.parse_scheme ht
  have hbs := NetUrl.parse_scheme hb
  have heq := (F.ascii _ _ (fun c hc => (hts c hc).1) fun c hc => (hbs c hc).1).mp h.scheme
  rwa [hlower _ hts, hlower _ hbs] at heq

def SlashFree (rawPath : Str) : Prop :=
  ∀ s ∈ rawPath.splitOn (ch '/'), ∀ d, NetUrl.unescape .path s = some d → ch '/' ∉ d

instance (rawPath : Str) : Decidable (SlashFree rawPath) :=
  decidable_of_iff (∀ s ∈ rawPath.splitOn (ch '/'), (NetUrl.unescape .path s).all (ch '/' ∉ ·) = true)
    (by simp only [SlashFree, Option.all_eq_true, decide_eq_true_eq])

/-- An escaped slash is part of a segment of the path and separates two of the unescaped one. -/
theorem splitOn_unescape (h : NetUrl.unescape .path raw = some path) :
    path.splitOn (ch '/') = ((raw.splitOn (ch '/')).map unescaped).flatMap fun d => d.splitOn (ch '/') := by
  refine splitOn_induction (ch '/') (P := fun raw => ∀ path, NetUrl.unescape .path raw = some path →
    path.splitOn (ch '/') = ((raw.splitOn (ch '/')).map unescaped).flatMap fun d => d.splitOn (ch '/'))
    (fun s hs path h => ?_) (fun a r ha ih path h => ?_) raw path h
  · rw [List.splitOn_eq_singleton hs, List.map_singleton, List.flatMap_singleton, unescaped, h, Option.getD_some]
  · obtain ⟨a', r', ha', hr', rfl⟩ := NetUrl.unescape_slash h
    rw [List.splitOn_append_cons_self, List.splitOn_append_cons_self, List.splitOn_eq_singleton ha,
      List.singleton_append, List.map_cons, List.flatMap_cons, ← ih r' hr', unescaped, ha', Option.getD_some]

theorem splitOn_slashFree (h : NetUrl.unescape .path raw = some path) (hs : SlashFree raw) :
    path.splitOn (ch '/') = (raw.splitOn (ch '/')).map unescaped := by
  have hone : ∀ d ∈ (raw.splitOn (ch '/')).map unescaped, d.splitOn (ch '/') = [d] := by
    intro d hd
    obtain ⟨s, hmem, rfl⟩ := List.mem_map.mp hd
    refine List.splitOn_eq_singleton ?_
    unfold unescaped
    cases hu : NetUrl.unescape .path s with
    | none => exact not_mem_of_mem_splitOn hmem
    | some d => exact hs s hmem d hu
  rw [splitOn_unescape h, List.flatMap_congr hone, List.flatMap_singleton']

theorem unescaped_eq_nil {s : Str} (h : unescaped s = []) : s = [] := by
  unfold unescaped at h
  cases hu : NetUrl.unescape .path s with
  | none => rwa [hu] at h
  | some d =>
    rw [hu, Option.getD_some] at h
    exact NetUrl.unescape_eq_nil (h ▸ hu)

theorem map_move (ss : List Str) : ss.map move = (ss.map unescaped).map dotMove := (List.map_map).symm

/-- The segments of a base, by its unescaped path. -/
theorem baseMoves_eq (h : NetUrl.unescape .path raw = some path) (hs : SlashFree raw) :
    baseMoves raw = (segments (trimSuffix (ch '/') path)).map dotMove := by
  have hsplit : (trimSuffix (ch '/') path).splitOn (ch '/') =
      ((trimSuffix (ch '/') raw).splitOn (ch '/')).map unescaped := by
    by_cases hraw : raw.getLast? = some (ch '/')
    · obtain ⟨x, rfl⟩ := List.getLast?_eq_some_iff.mp hraw
      obtain ⟨x', r', hx, hr, rfl⟩ := NetUrl.unescape_slash h
      cases hr
      have hx' : SlashFree x := fun s hmem => hs s <| by
        rw [List.splitOn_append_cons_self]
        exact List.mem_append_left _ hmem
      simpa [trimSuffix] using splitOn_slashFree hx hx'
    · have hpath : path.getLast? ≠ some (ch '/') := by
        intro hlast
        obtain ⟨q, rfl⟩ := List.getLast?_eq_some_iff.mp hlast
        have hnil := congrArg List.getLast? (splitOn_slashFree h hs)
        rw [List.splitOn_append_cons_self, List.splitOn_nil, List.getLast?_concat, List.getLast?_map, eq_comm,
          Option.map_eq_some_iff] at hnil
        obtain ⟨s, hlast, hs⟩ := hnil
        rcases getLast?_of_splitOn (unescaped_eq_nil hs ▸ hlast) with rfl | hlast
        · simp at h
        · exact hraw hlast
      rw [trimSuffix, if_neg hpath, trimSuffix, if_neg hraw, splitOn_slashFree h hs]
  rw [baseMoves, map_move, segments, segments, hsplit, List.map_tail]

theorem segments_in_moves (raw : Str) : (segments raw).map move <+: moves raw := by
  unfold moves
  dsimp only
  split
  · exact List.prefix_append _ _
  · exact List.prefix_refl _

/-- What passed the comparison of paths begins with the segments of the base. -/
theorem Within.begins (h : Within F t b) : segments (trimSuffix (ch '/') b.path) <+: segments t.path := by
  rcases h.path with hnil | heq | ⟨r, hr⟩
  · rw [hnil]
    exact List.nil_prefix
  · rw [heq]
  · rw [← hr, List.append_assoc, List.singleton_append, segments, segments, List.splitOn_append_cons_self,
      List.tail_append_of_ne_nil (List.splitOn_ne_nil _ _)]
    exact List.prefix_append _ _

/-- What passed the comparison of paths goes through the segments of the base, if no slash is escaped. -/
theorem Within.base_in_moves (h : Within F t b) (ht : NetUrl.parse L target = some t) (hb : NetUrl.parse L base = some b)
    (hts : SlashFree t.rawPath) (hbs : SlashFree b.rawPath) : baseMoves b.rawPath <+: moves t.rawPath := by
  have hall : (segments t.rawPath).map move = (segments t.path).map dotMove := by
    rw [map_move, segments, List.map_tail, ← splitOn_slashFree (NetUrl.parse_path ht) hts, segments]
  refine List.IsPrefix.trans ?_ (segments_in_moves t.rawPath)
  rw [baseMoves_eq (NetUrl.parse_path hb) hbs, hall]
  exact h.begins.map dotMove

theorem segments_unescape (h : NetUrl.unescape .path raw = some path) (hroot : raw = [] ∨ ∃ r, raw = ch '/' :: r) :
    segments path = ((segments raw).map unescaped).flatMap fun d => d.splitOn (ch '/') := by
  rcases hroot with rfl | ⟨r, rfl⟩
  · cases h
    rfl
  · obtain ⟨a', r', ha', hr', rfl⟩ := NetUrl.unescape_slash (a := []) h
    cases ha'
    have hseg : ∀ s : Str, segments (ch '/' :: s) = s.splitOn (ch '/') := fun s =>
      congrArg List.tail (List.splitOn_append_cons_self [] s)
    rw [List.nil_append, hseg, hseg, splitOn_unescape hr']

/-- What begins the unescaped segments begins the segments, or these have one with a slash before it ends. -/
theorem prefix_or_slash {cs ds : List Str} (h : cs <+: ds.flatMap fun d => d.splitOn (ch '/')) :
    cs <+: ds ∨ ∃ e d r, ds = e ++ d :: r ∧ e <+: cs ∧ ch '/' ∈ d := by
  induction ds generalizing cs with
  | nil => exact Or.inl h
  | cons d ds ih =>
    by_cases hd : ch '/' ∈ d
    · exact Or.inr ⟨[], d, ds, rfl, List.nil_prefix, hd⟩
    rw [List.flatMap_cons, List.splitOn_eq_singleton hd, List.singleton_append] at h
    cases cs with
    | nil => exact Or.inl List.nil_prefix
    | cons c cs =>
      obtain ⟨rfl, htail⟩ := List.cons_prefix_cons.mp h
      rcases ih htail with hp | ⟨e, d', r, rfl, he, hd'⟩
      · exact Or.inl (List.cons_prefix_cons.mpr ⟨rfl, hp⟩)
      · exact Or.inr ⟨c :: e, d', r, rfl, List.cons_prefix_cons.mpr ⟨rfl, he⟩, hd'⟩

theorem dotMove_name {s : Str} (h : s ≠ lit "." ∧ s ≠ lit "..") : dotMove s = .down s := by
  rw [dotMove, if_neg h.1, if_neg h.2]

theorem names_of_dotless (h : ∀ m ∈ ds.map dotMove, m ≠ .stay ∧ m ≠ .up) :
    (ds.map dotMove).filterMap Move.name? = ds := by
  induction ds with
  | nil => rfl
  | cons d ds ih =>
    rw [List.map_cons, List.forall_mem_cons] at h
    have hd : d ≠ lit "." ∧ d ≠ lit ".." := by
      constructor
      · rintro rfl
        exact h.1.1 rfl
      · rintro rfl
        exact h.1.2 rfl
    rw [List.map_cons, dotMove_name hd, names_down, ih h.2]

theorem eq_of_slash {bs e r : List Str} {d : Str} (hbs : ∀ x ∈ bs, ch '/' ∉ x) (he : e <+: bs) (hd : ch '/' ∈ d)
    (h : bs <+: e ++ d :: r) : e = bs := by
  obtain ⟨x, rfl⟩ := he
  rw [List.prefix_append_right_inj] at h
  cases x with
  | nil => exact (List.append_nil e).symm
  | cons y x =>
    obtain ⟨rfl, -⟩ := List.cons_prefix_cons.mp h
    exact absurd hd (hbs y (List.mem_append_right _ List.mem_cons_self))

/-- Without parent segments a target comes to the directory of a base without dots only by its segments. -/
theorem Within.begins_of_inside (h : Within F t b) (ht : NetUrl.parse L target = some t)
    (hb : NetUrl.parse L base = some b) (hbs : SlashFree b.rawPath)
    (hdots : ∀ m ∈ baseMoves b.rawPath, m ≠ .stay ∧ m ≠ .up) (hup : Move.up ∉ moves t.rawPath)
    (hin : directory b.rawPath <+: resolved t.rawPath) : baseMoves b.rawPath <+: moves t.rawPath := by
  have hbase := baseMoves_eq (NetUrl.parse_path hb) hbs
  have hdir : directory b.rawPath = segments (trimSuffix (ch '/') b.path) := by
    rw [directory, walk_of_no_up fun hmem => (hdots _ hmem).2 rfl, List.nil_append, hbase,
      names_of_dotless (hbase ▸ hdots)]
  have hbegins := h.begins
  rw [segments_unescape (NetUrl.parse_path ht) (NetUrl.parse_rooted ht h.isAbs)] at hbegins
  refine List.IsPrefix.trans ?_ (segments_in_moves t.rawPath)
  rw [hbase, map_move]
  rcases prefix_or_slash hbegins with hp | ⟨e, d, r, hds, he, hd⟩
  · exact hp.map dotMove
  obtain ⟨l, hl⟩ := segments_in_moves t.rawPath
  have hname : dotMove d = .down d := by
    refine dotMove_name ⟨?_, ?_⟩
    · rintro rfl
      exact absurd hd (by decide)
    · rintro rfl
      exact absurd hd (by decide)
  have hmoves : moves t.rawPath = e.map dotMove ++ .down d :: (r.map dotMove ++ l) := by
    rw [← hl, map_move, hds, List.map_append, List.map_cons, hname, List.append_assoc, List.cons_append]
  have hnames : (e.map dotMove).filterMap Move.name? = e :=
    names_of_dotless fun m hm => hdots m (hbase ▸ (he.map dotMove).subset hm)
  -- the segment with the slash would have to be one of the base
  rw [hdir, resolved, walk_of_no_up hup, List.nil_append, hmoves, List.filterMap_append, hnames, names_down] at hin
  have heq : e = segments (trimSuffix (ch '/') b.path) :=
    eq_of_slash (fun x hx => not_mem_of_mem_splitOn (List.mem_of_mem_tail hx)) he hd hin
  rw [hds, ← heq]
  exact (List.prefix_append _ _).map dotMove

theorem Within.inside_iff (h : Within F t b) (ht : NetUrl.parse L target = some t) (hb : NetUrl.parse L base = some b) :
    Inside F t b ↔ directory b.rawPath <+: resolved t.rawPath :=
  ⟨fun hin => hin.path, fun hpath => ⟨h.scheme_eq ht hb, h.host, hpath⟩⟩

/-- **Where a target that is let through leads.** If no slash is escaped, its path goes through the segments of the base
first. A path that does so leads into the base exactly if the rest comes back to the directory of the base and then
never climbs above it. A path that does not, for an escaped slash, has to climb: without a parent segment it leads
elsewhere, and otherwise it may come to the directory of the base by any of its segments. -/
theorem targetWithinBase_inside_iff (ht : NetUrl.parse L target = some t) (hb : NetUrl.parse L base = some b)
    (hok : targetWithinBase F L target base = .ok ()) :
    (SlashFree t.rawPath → SlashFree b.rawPath → baseMoves b.rawPath <+: moves t.rawPath) ∧
    (∀ rest, moves t.rawPath = baseMoves b.rawPath ++ rest →
      (Inside F t b ↔ ∃ l₁ l₂, rest = l₁ ++ l₂ ∧
        walk (directory b.rawPath) l₁ = directory b.rawPath ∧ StaysBelow l₂)) ∧
    (¬ baseMoves b.rawPath <+: moves t.rawPath →
      (Inside F t b ↔ ∃ l₁ l₂, moves t.rawPath = l₁ ++ l₂ ∧ walk [] l₁ = directory b.rawPath ∧ StaysBelow l₂) ∧
      (SlashFree b.rawPath → (∀ m ∈ baseMoves b.rawPath, m ≠ .stay ∧ m ≠ .up) → Inside F t b →
        Move.up ∈ moves t.rawPath)) := by
  obtain ⟨t', b', ht', hb', hwithin⟩ := targetWithinBase_ok_iff.mp hok
  cases ht.symm.trans ht'
  cases hb.symm.trans hb'
  rw [hwithin.inside_iff ht hb]
  refine ⟨hwithin.base_in_moves ht hb, fun rest hrest => ?_, fun hno => ⟨prefix_walk_iff List.prefix_nil.mp, ?_⟩⟩
  · rw [resolved, hrest, walk_append]
    exact prefix_walk_iff fun _ => rfl
  · intro hbs hdots hin
    by_contra hup
    exact hno (hwithin.begins_of_inside ht hb hbs hdots hup hin)

end

def asciiFolding : CaseFolding where
  equalFold s t := NetUrl.toLower s = NetUrl.toLower t
  ascii _ _ _ _ := decide_eq_true_iff

def noLiterals : NetUrl.HostLiterals where
  parse _ := none
  plain _ _ h := nomatch h

def objectUrl (rawPath path : Str) : NetUrl.Url where
  scheme := lit "http"
  host := lit "localhost:9000"
  path
  rawPath
  rawQuery := []

/-- The path goes up once, within the base. -/
theorem bucketObject_inside : Inside asciiFolding (objectUrl (lit "/bucket/a/../o.ts") (lit "/bucket/a/../o.ts"))
    (objectUrl (lit "/bucket/") (lit "/bucket/")) := by
  obtain ⟨ht, hb, hok, hts, hbs, hmoves, hbelow⟩ :
      NetUrl.parse noLiterals (lit "http://localhost:9000/bucket/a/../o.ts") =
        some (objectUrl (lit "/bucket/a/../o.ts") (lit "/bucket/a/../o.ts")) ∧
      NetUrl.parse noLiterals (lit "http://localhost:9000/bucket/") =
        some (objectUrl (lit "/bucket/") (lit "/bucket/")) ∧
      targetWithinBase asciiFolding noLiterals (lit "http://localhost:9000/bucket/a/../o.ts")
        (lit "http://localhost:9000/bucket/") = .ok () ∧
      SlashFree (lit "/bucket/a/../o.ts") ∧ SlashFree (lit "/bucket/") ∧
      moves (lit "/bucket/a/../o.ts") = baseMoves (lit "/bucket/") ++ [.down (lit "a"), .up, .down (lit "o.ts")] ∧
      StaysBelow [.down (lit "a"), .up, .down (lit "o.ts")] := by decide +kernel
  obtain ⟨hbegins, hiff, -⟩ := targetWithinBase_inside_iff ht hb hok
  obtain ⟨rest, hrest⟩ := hbegins hts hbs
  have hafter : rest = [.down (lit "a"), .up, .down (lit "o.ts")] :=
    List.append_cancel_left (hrest.trans hmoves)
  exact (hiff rest hrest.symm).mpr ⟨[], rest, (List.nil_append _).symm, walk_nil, hafter ▸ hbelow⟩

/-- The target is let through, and its location is not in the base. -/
def LeadsOut (target base : Str) : Prop :=
  ∃ t b, NetUrl.parse noLiterals target = some t ∧ NetUrl.parse noLiterals base = some b ∧
    targetWithinBase asciiFolding noLiterals target base = .ok () ∧ ¬ Inside asciiFolding t b

/-- A parent segment leads out of the base, as it stands and escaped, and so does an escaped slash. -/
theorem parentSegment_outside :
    LeadsOut (lit "http://localhost:9000/bucket/../other/o.ts") (lit "http://localhost:9000/bucket") ∧
    LeadsOut (lit "http://localhost:9000/bucket/%2e%2E/other/o.ts") (lit "http://localhost:9000/bucket") ∧
    LeadsOut (lit "http://localhost:9000/bucket%2Fo.ts") (lit "http://localhost:9000/bucket") := by
  have hb : NetUrl.parse noLiterals (lit "http://localhost:9000/bucket") =
      some (objectUrl (lit "/bucket") (lit "/bucket")) := by decide +kernel
  have hout : ∀ target t, NetUrl.parse noLiterals target = some t →
      targetWithinBase asciiFolding noLiterals target (lit "http://localhost:9000/bucket") = .ok () →
      ¬ directory (lit "/bucket") <+: resolved t.rawPath → LeadsOut target (lit "http://localhost:9000/bucket") :=
    fun _ t ht hok hpath => ⟨t, _, ht, hb, hok, fun h => hpath h.path⟩
  have hparent := hout (lit "http://localhost:9000/bucket/../other/o.ts")
    (objectUrl (lit "/bucket/../other/o.ts") (lit "/bucket/../other/o.ts"))
  have hescaped := hout (lit "http://localhost:9000/bucket/%2e%2E/other/o.ts")
    (objectUrl (lit "/bucket/%2e%2E/other/o.ts") (lit "/bucket/../other/o.ts"))
  have hslash := hout (lit "http://localhost:9000/bucket%2Fo.ts") (objectUrl (lit "/bucket%2Fo.ts") (lit "/bucket/o.ts"))
  exact ⟨hparent (by decide +kernel) (by decide +kernel) (by decide +kernel),
    hescaped (by decide +kernel) (by decide +kernel) (by decide +kernel),
    hslash (by decide +kernel) (by decide +kernel) (by decide +kernel)⟩

/-! ## Targets without parent segments -/

section
variable {F : CaseFolding} {L : NetUrl.HostLiterals} {t b : NetUrl.Url} {target base : Str}

/-- A target that is let through and has no parent segments leads into the base, if no slash is escaped. -/
theorem targetWithinBase_inside_of_no_up (ht : NetUrl.parse L target = some t) (hb : NetUrl.parse L base = some b)
    (hok : targetWithinBase F L target base = .ok ()) (hts : SlashFree t.rawPath) (hbs : SlashFree b.rawPath)
    (hup : Move.up ∉ moves t.rawPath) : Inside F t b := by
  obtain ⟨t', b', ht', hb', hwithin⟩ := targetWithinBase_ok_iff.mp hok
  cases ht.symm.trans ht'
  cases hb.symm.trans hb'
  obtain ⟨rest, hrest⟩ := hwithin.base_in_moves ht hb hts hbs
  rw [hwithin.inside_iff ht hb, resolved, prefix_walk_iff List.prefix_nil.mp]
  refine ⟨_, rest, hrest.symm, rfl, staysBelow_of_no_up fun hmem => hup ?_⟩
  rw [← hrest]
  exact List.mem_append_right _ hmem

end

theorem plainObject_inside :
    Inside asciiFolding (objectUrl (lit "/b/o") (lit "/b/o")) (objectUrl (lit "/b") (lit "/b")) := by
  obtain ⟨ht, hb, hok, hts, hbs, hup⟩ :
      NetUrl.parse noLiterals (lit "http://localhost:9000/b/o") = some (objectUrl (lit "/b/o") (lit "/b/o")) ∧
      NetUrl.parse noLiterals (lit "http://localhost:9000/b") = some (objectUrl (lit "/b") (lit "/b")) ∧
      targetWithinBase asciiFolding noLiterals (lit "http://localhost:9000/b/o") (lit "http://localhost:9000/b") =
        .ok () ∧
      SlashFree (lit "/b/o") ∧ SlashFree (lit "/b") ∧ Move.up ∉ moves (lit "/b/o") := by decide +kernel
  exact targetWithinBase_inside_of_no_up ht hb hok hts hbs hup

end OpenTams.Gateway

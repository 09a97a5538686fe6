import OpenTams.Intersect
import OpenTams.Segments

/-!
# Ranges the server builds

A range comes out of the parser, is the intersection of two ranges, or is joined
from the start of one and the end of another. All of them are well formed, so
each can be rendered, and its string parses back to a range that denotes the same
nanoseconds and is rendered as the same string.
-/

namespace OpenTams

inductive Built : TimeRange → Prop
  | parsed {s : Str} {tr : TimeRange} : parse s = .ok tr → Built tr
  | intersected {a b tr : TimeRange} : Built a → Built b → a.intersect b = some tr → Built tr
  | joined {first last : TimeRange} : Built first → Built last →
      first.isEmpty = false → first.start.isSome → first.endTs.isSome →
      last.isEmpty = false → last.start.isSome → last.endTs.isSome → Built (joinSpan first last)

theorem sides_of_wf {tr : TimeRange} (h : tr.Wf) (hs : tr.start.isSome) :
    SideWf tr.start tr.startType ∧ SideWf tr.endTs tr.endType := by
  rcases h with rfl | h
  · cases hs
  · exact h

theorem wf_joinSpan {first last : TimeRange} (hf : first.Wf) (hl : last.Wf) (hfs : first.start.isSome)
    (hls : last.start.isSome) : (joinSpan first last).Wf :=
  Or.inr ⟨(sides_of_wf hf hfs).1, (sides_of_wf hl hls).2⟩

theorem Built.wf {tr : TimeRange} (h : Built tr) : tr.Wf := by
  induction h with
  | parsed hp => exact (parse_text hp).1
  | intersected _ _ hi iha ihb =>
    obtain ⟨r, hr, hwf, -⟩ := TimeRange.intersect_spec iha ihb
    cases hi.symm.trans hr
    exact hwf
  | joined _ _ _ hfs _ _ hls _ ihf ihl => exact wf_joinSpan ihf ihl hfs hls

/-- **Rendering keeps the meaning and is canonical.** -/
theorem rendering_canonical {tr : TimeRange} (h : Built tr) :
    ∃ text, tr.string = some text ∧
      ∃ tr', parse text = .ok tr' ∧ tr'.denote = tr.denote ∧ tr'.string = some text := by
  obtain ⟨text, ht, -⟩ := TimeRange.string_text h.wf
  obtain ⟨tr', hp, -, hden⟩ := parse_string h.wf ht
  exact ⟨text, ht, tr', hp, hden, string_parse_string h.wf ht hp⟩

/-- The instant `5:0`, joined to an exclusive end at the least second, is rendered as the empty range. -/
theorem rendering_canonical_joined :
    ∃ first last, parse (lit "5:0") = .ok first ∧ parse (lit "[-9223372036854775808:0_0:1)") = .ok last ∧
      (joinSpan first last).string = some (lit "()") ∧
      ∃ text tr', (joinSpan first last).string = some text ∧ parse text = .ok tr' ∧ tr'.string = some text := by
  have hf : parse (lit "5:0") = .ok ⟨some ⟨5, 0⟩, .inclusive, some ⟨5, 0⟩, .inclusive⟩ := by decide
  have hl : parse (lit "[-9223372036854775808:0_0:1)") =
      .ok ⟨some ⟨Int64.minValue, 0⟩, .inclusive, some ⟨0, 1⟩, .exclusive⟩ := by decide
  obtain ⟨text, ht, tr', hp, -, ht'⟩ := rendering_canonical
    (.joined (.parsed hf) (.parsed hl) (by decide) rfl rfl (by decide) rfl rfl)
  exact ⟨_, _, hf, hl, by decide, text, tr', ht, hp, ht'⟩

end OpenTams

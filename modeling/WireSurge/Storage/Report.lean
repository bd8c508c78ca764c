import WireSurge.Lib.Markup
import WireSurge.Lib.Replace
import WireSurge.Metrics.Runner

/-!
# The report page

`report_html` puts the summary and the details of a run, which are JSON texts, into
a page. `html_escape` writes them with four replacements, each over what the one
before has left; together they are one pass over the characters (`htmlEscape_eq`),
so that the page shows the two texts (`htmlEscape_shows`).
-/

namespace WireSurge.Storage

open Markup (charData entities escape unescape)
open Metrics (ReportSummary)
open Str (Text replace replace_singleton)

/-! ## The page -/

/-- `format!("{:.3}")`, for a duration. -/
def fixed3 : Double → Text
  | .finite value _ =>
    let thousandths := (Double.nearestEven (|value| * 1000)).toNat
    let digits := (toString (1000 + thousandths % 1000)).toList.tail
    (if value < 0 then ['-'] else []) ++ (toString (thousandths / 1000)).toList ++ '.' :: digits
  | .infinite negative => if negative then "-inf".toList else "inf".toList
  | .nan => "NaN".toList

def htmlEscape (input : Text) : Text :=
  replace ['"'] "&quot;".toList
    (replace ['>'] "&gt;".toList (replace ['<'] "&lt;".toList (replace ['&'] "&amp;".toList input)))

/-- The page up to the summary. -/
def reportHead (summary : ReportSummary) : Text :=
  ("<!doctype html>\n" ++
    "<html lang=\"en\">\n" ++
    "<head>\n" ++
    "  <meta http-equiv=\"Content-Type\" content=\"text/html; charset=utf-8\">\n" ++
    "  <meta name=\"viewport\" content=\"width=device-width, initial-scale=1\">\n" ++
    "  <title>WireSurge Report " ++ summary.id ++ "</title>\n" ++
    "  <style type=\"text/css\">\n" ++
    "    body \x7b font-family: system-ui, sans-serif; margin: 40px; line-height: 1.5; color: #17202a; \x7d\n" ++
    "    pre \x7b background: #eef2f6; padding: 16px; overflow: auto; border-radius: 8px; \x7d\n" ++
    "  </style>\n" ++
    "</head>\n" ++
    "<body>\n" ++
    "  <h1>WireSurge Report " ++ summary.id ++ "</h1>\n" ++
    "  <p>Status: <strong>" ++ summary.status ++ "</strong></p>\n" ++
    "  <p>Duration: ").toList ++ fixed3 summary.durationMs ++ (" ms</p>\n" ++
    "  <h2>Summary</h2>\n" ++
    "  ").toList

def reportHtml (summary : ReportSummary) (summaryJson detailsJson : Text) : Text :=
  reportHead summary ++ "<pre>".toList ++ htmlEscape summaryJson ++ "</pre>".toList ++
    "\n  <h2>Details</h2>\n  ".toList ++ "<pre>".toList ++ htmlEscape detailsJson ++ "</pre>".toList ++
    "\n</body>\n</html>".toList

/-! ## What it shows -/

/-- The four passes are one: none of them sees what another has written. -/
theorem htmlEscape_eq (input : Text) : htmlEscape input = escape input := by
  rw [htmlEscape, replace_singleton '&', replace_singleton '<', replace_singleton '>', replace_singleton '"',
    List.flatMap_assoc, List.flatMap_assoc, List.flatMap_assoc, escape]
  refine List.flatMap_congr fun c _ => ?_
  by_cases hamp : c = '&'
  · subst hamp
    decide
  · by_cases hlt : c = '<'
    · subst hlt
      decide
    · by_cases hgt : c = '>'
      · subst hgt
        decide
      · by_cases hquot : c = '"'
        · subst hquot
          decide
        · rw [Markup.escapeChar_of_plain (by simp [hamp, hlt, hgt, hquot])]
          simp only [if_neg hamp, if_neg hlt, if_neg hgt, if_neg hquot, List.flatMap_cons, List.flatMap_nil,
            List.append_nil]

/-- An escaped text has no character of markup, and no `&` that does not begin an
entity; with the entities replaced from left to right it is the text. So the two
sections of a report show the summary and the details as they are. -/
theorem htmlEscape_shows :
    (∀ input : Text, '<' ∉ htmlEscape input ∧ '>' ∉ htmlEscape input ∧ '"' ∉ htmlEscape input ∧
      (∀ before behind, htmlEscape input = before ++ '&' :: behind → ∃ e ∈ entities, e.1 <+: '&' :: behind) ∧
      unescape (htmlEscape input) = input) ∧
    ∀ (summary : ReportSummary) (summaryJson detailsJson : Text), ∃ section1 section2,
      reportHtml summary summaryJson detailsJson = reportHead summary ++ "<pre>".toList ++ section1 ∧
      (∃ between, section1 = htmlEscape summaryJson ++ "</pre>".toList ++ between ++ "<pre>".toList ++ section2) ∧
      charData section1 = summaryJson ∧ charData section2 = detailsJson := by
  refine ⟨fun input => ?_, fun summary summaryJson detailsJson => ?_⟩
  · rw [htmlEscape_eq]
    exact ⟨Markup.notMem_escape (by decide) input, Markup.notMem_escape (by decide) input,
      Markup.notMem_escape (by decide) input, fun _ _ => Markup.entity_of_escape, Markup.unescape_escape input⟩
  · have hshown (input behind : Text) : charData (htmlEscape input ++ ("</pre>".toList ++ behind)) = input := by
      rw [htmlEscape_eq]
      exact Markup.charData_escape input ("/pre>".toList ++ behind)
    rw [reportHtml]
    generalize "\n  <h2>Details</h2>\n  ".toList = between, "\n</body>\n</html>".toList = back
    refine ⟨_, htmlEscape detailsJson ++ ("</pre>".toList ++ back), ?_, ⟨between, rfl⟩, ?_, hshown detailsJson back⟩
    · simp only [List.append_assoc]
    · rw [List.append_assoc, List.append_assoc, List.append_assoc]
      exact hshown summaryJson _

example : htmlEscape "a &lt; <b>\"".toList = "a &amp;lt; &lt;b&gt;&quot;".toList := by decide +kernel

end WireSurge.Storage

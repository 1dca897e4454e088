import GrammarNotation.Canonical
import GrammarNotation.Proofs.LineEndings
import GrammarNotation.Report.Basic

/-!
A line feed is the one end of a line inside. The ends of lines of a text that comes in are found in
a single pass from left to right, although they are joined to pairs of one kind after the other.
So a text without carriage returns is told the same in each of its spellings, and so is everything
that is read from it or shown of it.
-/

namespace GrammarNotation

namespace LineEnding

/-- Ends of lines read in one pass from left to right. A line feed, by itself or behind a carriage
return, takes one carriage return behind it along that does not itself stand before a line feed;
`ended` says that the pass has just come behind a line feed. -/
def readOnce (ended : Bool) : List Char → List Char
  | [] => []
  | '\r' :: '\n' :: rest => '\n' :: readOnce true rest
  | '\r' :: rest => if ended then readOnce false rest else '\n' :: readOnce false rest
  | '\n' :: rest => '\n' :: readOnce true rest
  | c :: rest => c :: readOnce false rest

/-- The line feed that may still be the first of a pair. -/
def held (ended : Bool) : List Char := if ended then ['\n'] else []

theorem map_held (ended : Bool) : (held ended).map joinReturn = held ended := by
  cases ended <;> rfl

theorem joinPair_held (ended : Bool) {c : Char} (other : c ≠ '\r') (cs : List Char) :
    joinPair '\n' '\r' (held ended ++ c :: cs) = held ended ++ joinPair '\n' '\r' (c :: cs) := by
  cases ended with
  | false => rfl
  | true =>
      change joinPair '\n' '\r' ('\n' :: c :: cs) = '\n' :: joinPair '\n' '\r' (c :: cs)
      rw [joinPair, if_neg fun pair => other pair.2]

theorem joinPair_return {cs : List Char} (noFeed : ∀ rest, cs ≠ '\n' :: rest) :
    joinPair '\r' '\n' ('\r' :: cs) = '\r' :: joinPair '\r' '\n' cs := by
  cases cs with
  | nil => rfl
  | cons c cs =>
      rw [joinPair, if_neg]
      rintro ⟨-, rfl⟩
      exact noFeed cs rfl

/-- The first joining is one line feed ahead of the second where the last character was one. -/
-- The induction is on the pass. A line feed that it has given out is held by the second joining,
-- which has yet to see whether a carriage return comes behind it.
theorem map_joinPair_held (ended : Bool) (cs : List Char) :
    (joinPair '\n' '\r' (held ended ++ joinPair '\r' '\n' cs)).map joinReturn =
      held ended ++ readOnce ended cs := by
  fun_induction readOnce ended cs with
  | case1 ended => cases ended <;> rfl
  | case2 ended rest ih =>
      rw [joinPair_pair, joinPair_held ended (by decide), List.map_append, map_held]
      exact congrArg (held ended ++ ·) ih
  | case3 rest noFeed ih =>
      rw [joinPair_return fun cs => noFeed cs]
      exact congrArg ('\n' :: ·) ih
  | case4 ended rest noFeed fresh ih =>
      obtain rfl : ended = false := by simpa using fresh
      rw [joinPair_return fun cs => noFeed cs]
      change (joinPair '\n' '\r' ('\r' :: joinPair '\r' '\n' rest)).map joinReturn = _
      rw [joinPair_cons_of_ne (by decide)]
      exact congrArg ('\n' :: ·) ih
  | case5 ended rest ih =>
      rw [joinPair_cons_of_ne (by decide), joinPair_held ended (by decide), List.map_append,
        map_held]
      exact congrArg (held ended ++ ·) ih
  | case6 ended c rest _ noReturn noFeed ih =>
      have same : joinReturn c = c := if_neg noReturn
      rw [joinPair_cons_of_ne noReturn, joinPair_held ended noReturn,
        joinPair_cons_of_ne noFeed, List.map_append, map_held, List.map_cons, same]
      exact congrArg (fun cs => held ended ++ c :: cs) ih

theorem normalizeChars_eq_readOnce (cs : List Char) : normalizeChars cs = readOnce false cs :=
  map_joinPair_held false cs

theorem readOnce_cons {c : Char} (noReturn : c ≠ '\r') (noFeed : c ≠ '\n') (ended : Bool)
    (cs : List Char) : readOnce ended (c :: cs) = c :: readOnce false cs := by
  rw [readOnce]
  · exact fun _ e _ => noReturn e
  · exact noReturn
  · exact noFeed

theorem readOnce_return {cs : List Char} (noFeed : ∀ rest, cs ≠ '\n' :: rest) (ended : Bool) :
    readOnce ended ('\r' :: cs) =
      if ended then readOnce false cs else '\n' :: readOnce false cs := by
  rw [readOnce]
  exact fun rest e => noFeed rest e

theorem lineFeed_notMem_replaceLineFeeds {ending : List Char} (noFeed : '\n' ∉ ending)
    (cs : List Char) : '\n' ∉ replaceLineFeeds ending cs := by
  intro inside
  obtain ⟨c, -, inside⟩ := List.mem_flatMap.1 inside
  split at inside
  · exact noFeed inside
  · rename_i other
    exact other (List.mem_singleton.1 inside).symm

/-- Where the two characters are the other way round, each carriage return but the last of a run
stands before a line feed, and the last one is taken along. -/
theorem readOnce_feedReturn {cs : List Char} (plain : '\r' ∉ cs) :
    readOnce false (replaceLineFeeds ['\n', '\r'] cs) = cs ∧
      readOnce true ('\r' :: replaceLineFeeds ['\n', '\r'] cs) = cs := by
  induction cs with
  | nil => exact ⟨rfl, rfl⟩
  | cons c cs ih =>
      rw [List.mem_cons, not_or] at plain
      obtain ⟨here, others⟩ := plain
      obtain ⟨behind, inside⟩ := ih others
      by_cases feed : c = '\n'
      · rw [feed, replaceLineFeeds_lineFeed]
        exact ⟨congrArg ('\n' :: ·) inside, congrArg ('\n' :: ·) inside⟩
      · have apart : ∀ rest, c :: replaceLineFeeds ['\n', '\r'] cs ≠ '\n' :: rest :=
          fun rest e => feed (List.cons.inj e).1
        rw [replaceLineFeeds_cons _ feed, readOnce_return apart,
          readOnce_cons (Ne.symm here) feed, behind]
        exact ⟨rfl, rfl⟩

theorem readOnce_returns {cs : List Char} (plain : '\r' ∉ cs) :
    readOnce false (replaceLineFeeds ['\r'] cs) = cs := by
  induction cs with
  | nil => rfl
  | cons c cs ih =>
      rw [List.mem_cons, not_or] at plain
      obtain ⟨here, others⟩ := plain
      by_cases feed : c = '\n'
      · have noFeed : '\n' ∉ replaceLineFeeds ['\r'] cs :=
          lineFeed_notMem_replaceLineFeeds (by decide) cs
        have apart : ∀ rest, replaceLineFeeds ['\r'] cs ≠ '\n' :: rest :=
          fun rest e => noFeed (e ▸ List.mem_cons_self)
        rw [feed, replaceLineFeeds_lineFeed, List.singleton_append, readOnce_return apart,
          ih others]
        rfl
      · rw [replaceLineFeeds_cons _ feed, readOnce_cons (Ne.symm here) feed, ih others]

theorem normalize_replaceLineFeeds {text : String} (plain : '\r' ∉ text.toList)
    {ending : List Char} (other : ending ∈ [['\r', '\n'], ['\n', '\r'], ['\r']]) :
    normalize (String.ofList (replaceLineFeeds ending text.toList)) = text := by
  have chars : normalizeChars (replaceLineFeeds ending text.toList) = text.toList := by
    simp only [List.mem_cons, List.not_mem_nil, or_false] at other
    rcases other with rfl | rfl | rfl
    · exact normalizeChars_spell .crlf plain
    · rw [normalizeChars_eq_readOnce, (readOnce_feedReturn plain).1]
    · rw [normalizeChars_eq_readOnce, readOnce_returns plain]
  rw [normalize, String.toList_ofList, chars, String.ofList_toList]

theorem normalizeChars_normalize (text : String) :
    normalizeChars (normalize text).toList = normalizeChars text.toList := by
  rw [normalize, String.toList_ofList,
    normalizeChars_eq_self (return_notMem_normalizeChars text.toList)]

end LineEnding

open LineEnding

namespace Document

theorem read_normalize (text : String) : read (normalize text) = read text := by
  rw [read, read, normalizeChars_normalize]

theorem canonicalize_normalize (text : String) :
    canonicalize (normalize text) = canonicalize text := by
  rw [canonicalize, canonicalize, read_normalize]

end Document

theorem Report.render_normalize (path text : String) (e : Error) :
    render path (normalize text) e = render path text e := by
  unfold render
  dsimp only
  rw [normalizeChars_normalize]

namespace LineEnding

/-- However ends of lines stand beside one another, joining pairs of one kind after those of the
other reads them as a single pass does. So nothing is left to read a second time, and a text without
carriage returns is the same text in each of its spellings, to whatever is done with it. -/
theorem normalize_in_one_pass (text : String) :
    (normalize text).toList = readOnce false text.toList ∧
    '\r' ∉ (normalize text).toList ∧
    normalize (normalize text) = normalize text ∧
    ('\r' ∉ text.toList →
      normalize text = text ∧
      ∀ ending ∈ [['\r', '\n'], ['\n', '\r'], ['\r']],
        let spelled := String.ofList (replaceLineFeeds ending text.toList)
        normalize spelled = text ∧
        Document.parse spelled = Document.parse text ∧
        Document.canonicalize spelled = Document.canonicalize text ∧
        ∀ path e, Report.render path spelled e = Report.render path text e) := by
  refine ⟨?_, ?_, ?_, fun plain => ⟨?_, fun ending other => ?_⟩⟩
  · rw [normalize, String.toList_ofList, normalizeChars_eq_readOnce]
  · rw [normalize, String.toList_ofList]
    exact return_notMem_normalizeChars text.toList
  · rw [normalize, normalizeChars_normalize]
    rfl
  · rw [normalize, normalizeChars_eq_self plain, String.ofList_toList]
  · intro spelled
    have same : normalize spelled = text := normalize_replaceLineFeeds plain other
    refine ⟨same, ?_, ?_, fun path e => ?_⟩
    · rw [Document.parse, Document.parse, ← Document.read_normalize spelled, same]
    · rw [← Document.canonicalize_normalize spelled, same]
    · rw [← Report.render_normalize path spelled, same]

theorem normalize_in_one_pass_pairs :
    (normalize "a\r\n\r\n\r\rb\n\r\n\r").toList = "a\n\n\nb\n\n".toList ∧
    '\r' ∉ "header \x7b\n\na".toList ∧
    String.ofList (replaceLineFeeds ['\n', '\r'] "header \x7b\n\na".toList) =
      "header \x7b\n\r\n\ra" ∧
    Document.parse "header \x7b\n\r\n\ra" = Document.parse "header \x7b\n\na" ∧
    ∀ e, Report.render "g" "header \x7b\n\r\n\ra" e = Report.render "g" "header \x7b\n\na" e := by
  have plain : '\r' ∉ "header \x7b\n\na".toList := by decide
  have spelled : String.ofList (replaceLineFeeds ['\n', '\r'] "header \x7b\n\na".toList) =
      "header \x7b\n\r\n\ra" := by decide
  obtain ⟨pass, -⟩ := normalize_in_one_pass "a\r\n\r\n\r\rb\n\r\n\r"
  obtain ⟨-, -, -, others⟩ := normalize_in_one_pass "header \x7b\n\na"
  obtain ⟨-, parsed, -, shown⟩ := (others plain).2 ['\n', '\r'] (by decide)
  rw [spelled] at parsed shown
  refine ⟨?_, plain, spelled, parsed, shown "g"⟩
  rw [pass]
  decide

end LineEnding

end GrammarNotation

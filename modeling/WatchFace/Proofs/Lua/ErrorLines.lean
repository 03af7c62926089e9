import WatchFace.Proofs.Lua.Answers
import WatchFace.Proofs.Lua.Hidden

/-!
# The line of a syntax error

A syntax error names the line of a token after the word "line", or in front of everything else. The check looks for the
word.
-/

namespace WatchFace.Lua

open Report List

def rejection? (code : List Char) : Option SyntaxError :=
  match parse code with
  | .ok _ => none
  | .error e => some e

theorem parse_of_rejection? {code : List Char} {e : SyntaxError} (h : rejection? code = some e) :
    parse code = .error e := by
  unfold rejection? at h
  cases hparse : parse code with
  | ok script =>
    rw [hparse] at h
    cases h
  | error e' =>
    rw [hparse] at h
    rw [Option.some.inj h]

def SyntaxError.line? : SyntaxError → Option Nat
  | .expecting line _ => some line
  | .ambiguous line _ => some line
  | .noChunk | .malformedNumber _ => none

def grammarLines (ds : List Diagnostic) : List Nat := (ds.filter (·.rule = .grammar)).map (·.line)

theorem grammarLines_reveal (ds : List Diagnostic) : grammarLines (ds.map Diagnostic.reveal) = grammarLines ds := by
  simp only [grammarLines, filter_map, map_map]
  rfl

theorem grammarLines_afterFailure (reason : String) (code : List Char) : grammarLines (afterFailure reason code) = [] := by
  refine map_eq_nil_iff.mpr (filter_eq_nil_iff.mpr fun d hd => ?_)
  rw [decide_eq_true_eq]
  obtain rfl | hd := mem_cons.mp hd
  · exact nofun
  · intro hrule
    obtain h | h := (Outline.sound_check code d hd).rule
    all_goals cases hrule.symm.trans h

theorem grammarLines_check (v : Vocabulary) {code : String} {e : SyntaxError}
    (h : rejection? (Tag.hide code.toList) = some e) :
    grammarLines (({ vocabulary := v } : Checker).check code).1 = (messageLine e.message.toList).toOption.toList := by
  have hverdict : Engine.standard.parse (Tag.hide code.toList) = .fault e.message := by
    simp only [Engine.standard, parse_of_rejection? h]
  have hfindings : (examine v (some Engine.standard) code.toList).findings =
    (examineHidden v Engine.standard (Tag.hide code.toList)).findings.map Diagnostic.reveal := rfl
  rw [check_eq_examine, hfindings, grammarLines_reveal, examineHidden, hverdict]
  dsimp only
  rw [ofFault_eq]
  cases messageLine e.message.toList with
  | ok line => rfl
  | error r => exact grammarLines_afterFailure r.message (Tag.hide code.toList)

end WatchFace.Lua

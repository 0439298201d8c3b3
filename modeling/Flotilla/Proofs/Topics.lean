import Flotilla.Config
import Flotilla.Device
import Flotilla.Proofs.Payload

/-!
# Where commands and replies go

The commands to a name and the replies of it have topics with the same first levels. A pattern for
the commands to a single level covers those (`Topic.covers_anyCommand`), no reply
(`Topic.not_covers_anyCommand_reply`), and no command to another level
(`Topic.not_covers_anyCommand_of_ne`); the pattern for all replies covers those of single levels and
never a command. Names, commands and first levels are arbitrary texts, so a name may bring levels
and wildcards of its own; `Config.reaches_addressee` says which names are reached all the same.
-/

namespace Flotilla.Topic

variable {root id : String}

/-- The levels of two texts with a slash in between are those of the one and those of the other. -/
theorem levels_append (a b : String) : levels (a ++ "/" ++ b) = levels a ++ levels b := by
  have htext : (a ++ "/" ++ b).toList = a.toList ++ '/' :: b.toList := by
    rw [String.toList_append, String.toList_append, List.append_assoc]
    rfl
  rw [levels, htext, Text.split_append]
  rfl

/-- A text without a slash is one level. -/
theorem levels_of_notMem (h : '/' ∉ id.toList) : levels id = [id.toList] :=
  Text.split_of_notMem h

/-- The levels of the topic on which a target gets a command. -/
theorem levels_command (root target command : String) :
    levels (Topic.command root target command) =
      levels root ++ (levels target ++ ("cmd".toList :: levels command)) := by
  have htext : Topic.command root target command =
      root ++ "/" ++ (target ++ "/" ++ ("cmd" ++ "/" ++ command)) := by
    have hcmd : "/cmd/" = "/" ++ ("cmd" ++ "/") := by decide
    rw [Topic.command, hcmd]
    simp only [String.append_assoc]
  rw [htext, levels_append, levels_append, levels_append]
  rfl

/-- The levels of the topic on which a target replies. -/
theorem levels_reply (root target : String) :
    levels (reply root target) = levels root ++ (levels target ++ ["reply".toList]) := by
  have htext : reply root target = root ++ "/" ++ (target ++ "/" ++ "reply") := by
    have hreply : "/reply" = "/" ++ "reply" := by decide
    rw [reply, hreply]
    simp only [String.append_assoc]
  rw [htext, levels_append, levels_append]
  rfl

/-- The levels of the pattern for all commands to a target. -/
theorem levels_anyCommand (root target : String) :
    levels (anyCommand root target) =
      levels root ++ (levels target ++ ["cmd".toList, anyRest]) := by
  have htext : anyCommand root target = Topic.command root target "#" := by
    have hcmd : "/cmd/#" = "/cmd/" ++ "#" := by decide
    rw [anyCommand, Topic.command, hcmd]
    simp only [String.append_assoc]
  rw [htext, levels_command]
  rfl

/-- The levels of the pattern for the replies of all targets. -/
theorem levels_anyReply (root : String) :
    levels (anyReply root) = levels root ++ [anyLevel, "reply".toList] := by
  have htext : anyReply root = reply root "+" := by
    have hreply : "/+/reply" = "/" ++ ("+" ++ "/reply") := by decide
    rw [anyReply, reply, hreply]
    simp only [String.append_assoc]
  rw [htext, levels_reply]
  rfl

/-- First levels that are the same match, unless one stands for all the rest. -/
theorem levelsMatch_append {root : List Level} (h : anyRest ∉ root) (pattern topic : List Level) :
    levelsMatch (root ++ pattern) (root ++ topic) = levelsMatch pattern topic := by
  induction root with
  | nil => rfl
  | cons level root ih =>
    obtain ⟨hlevel, hroot⟩ := not_or.1 (List.mem_cons.not.1 h)
    rw [List.cons_append, List.cons_append, levelsMatch, if_neg (Ne.symm hlevel), ih hroot,
      decide_eq_true rfl, Bool.or_true, Bool.true_and]

/-- A level that is not the rest wildcard matches one level, and what follows it matches the
rest. -/
theorem levelsMatch_cons {p : Level} (h : p ≠ anyRest) (pattern : List Level) (t : Level)
    (topic : List Level) :
    levelsMatch (p :: pattern) (t :: topic) =
      ((p = anyLevel || p = t) && levelsMatch pattern topic) := by
  rw [levelsMatch, if_neg h]

/-- A level that stands for all the rest is not followed by any. -/
theorem levelsMatch_cons_anyRest (pattern topic : List Level) :
    levelsMatch (anyRest :: pattern) topic = pattern.isEmpty := by
  unfold levelsMatch
  rw [if_pos rfl]

/-- The rest wildcard matches whatever is left. -/
theorem levelsMatch_anyRest (topic : List Level) : levelsMatch [anyRest] topic = true :=
  levelsMatch_cons_anyRest [] topic

/-- A level that stands for all the rest matches nothing where more is to come. -/
theorem levelsMatch_of_anyRest {root : List Level} (h : anyRest ∈ root) {pattern : List Level}
    (hmore : pattern ≠ []) (topic : List Level) :
    levelsMatch (root ++ pattern) (root ++ topic) = false := by
  induction root with
  | nil => cases h
  | cons level root ih =>
    rw [List.cons_append, List.cons_append, levelsMatch]
    by_cases hlevel : level = anyRest
    · rw [if_pos hlevel, List.isEmpty_eq_false_iff]
      exact List.append_ne_nil_of_right_ne_nil root hmore
    · rw [if_neg hlevel, ih ((List.mem_cons.1 h).resolve_left (Ne.symm hlevel)), Bool.and_false]

/-- Under the same first levels, a pattern that goes on matches what its last levels match, unless
one of the first levels stands for all the rest. -/
theorem levelsMatch_append_iff {root pattern : List Level} (hmore : pattern ≠ [])
    (topic : List Level) : levelsMatch (root ++ pattern) (root ++ topic) = true ↔
      levelsMatch pattern topic = true ∧ anyRest ∉ root := by
  by_cases h : anyRest ∈ root
  · rw [levelsMatch_of_anyRest h hmore]
    exact iff_of_false Bool.false_ne_true fun hboth => hboth.2 h
  · rw [levelsMatch_append h, and_iff_left h]

/-- A pattern in which no level stands for all the rest matches topics of its own length. -/
theorem length_of_levelsMatch {pattern topic : List Level} (h : anyRest ∉ pattern)
    (hmatch : levelsMatch pattern topic = true) : topic.length = pattern.length := by
  induction pattern generalizing topic with
  | nil => exact congrArg List.length (List.isEmpty_iff.1 hmatch)
  | cons p pattern ih =>
    obtain ⟨hp, hpattern⟩ := not_or.1 (List.mem_cons.not.1 h)
    cases topic with
    | nil =>
      rw [levelsMatch, if_neg (Ne.symm hp)] at hmatch
      cases hmatch
    | cons t topic =>
      rw [levelsMatch_cons (Ne.symm hp), Bool.and_eq_true] at hmatch
      exact congrArg (· + 1) (ih hpattern hmatch.2)

/-- A text is a single level exactly if it has no slash. -/
theorem length_levels_eq_one_iff : (levels id).length = 1 ↔ '/' ∉ id.toList := by
  constructor
  · intro hlength
    obtain ⟨level, hlevel⟩ := List.length_eq_one_iff.1 hlength
    have hjoin := Text.join_split '/' id.toList
    rw [levels] at hlevel
    rw [hlevel, Text.join] at hjoin
    rw [← hjoin]
    exact Text.not_mem_of_mem_split (hlevel ▸ List.mem_singleton_self level)
  · intro h
    rw [levels_of_notMem h]
    rfl

private theorem length_levels_pos (text : String) : 0 < (levels text).length :=
  List.length_pos_iff.2 (Text.split_ne_nil '/' text.toList)

/-- A reply is among all replies exactly if its sender is a single level and no first level stands
for all the rest. -/
theorem covers_anyReply_iff (root target : String) :
    covers (anyReply root) (reply root target) = true ↔
      '/' ∉ target.toList ∧ anyRest ∉ levels root := by
  rw [covers, levels_anyReply, levels_reply, levelsMatch_append_iff (List.cons_ne_nil _ _)]
  refine and_congr_left' ⟨fun hmatch => ?_, fun hlevel => ?_⟩
  · have hlength := length_of_levelsMatch (by decide) hmatch
    rw [List.length_append] at hlength
    exact length_levels_eq_one_iff.1 (Nat.succ.inj hlength)
  · rw [levels_of_notMem hlevel]
    change levelsMatch (anyLevel :: ["reply".toList]) (target.toList :: ["reply".toList]) = true
    rw [levelsMatch_cons (by decide), levelsMatch_cons (by decide), decide_eq_true rfl,
      decide_eq_true rfl, Bool.true_or, Bool.or_true, Bool.true_and, Bool.true_and]
    rfl

/-- A command is never among the replies, whatever its topic is put together from. -/
theorem not_covers_anyReply_command (root target command : String) :
    covers (anyReply root) (Topic.command root target command) = false := by
  rw [covers, levels_anyReply, levels_command, Bool.eq_false_iff, Ne,
    levelsMatch_append_iff (List.cons_ne_nil _ _)]
  rintro ⟨hmatch, -⟩
  have hlength := length_of_levelsMatch (by decide) hmatch
  have htarget := length_levels_pos target
  have hcommand := length_levels_pos command
  simp only [List.length_append, List.length_cons, List.length_nil] at hlength
  omega

/-- A name that is a single level and no wildcard, under first levels of which none stands for all
the rest. -/
structure Addresses (root id : String) : Prop where
  root : anyRest ∉ levels root
  level : '/' ∉ id.toList
  notAnyLevel : id ≠ "+"
  notAnyRest : id ≠ "#"

namespace Addresses

variable (h : Addresses root id)
include h

private theorem levels_id : levels id = [id.toList] := levels_of_notMem h.level

private theorem ne_anyLevel : id.toList ≠ anyLevel :=
  fun hid => h.notAnyLevel (String.toList_inj.1 hid)

private theorem ne_anyRest : id.toList ≠ anyRest :=
  fun hid => h.notAnyRest (String.toList_inj.1 hid)

/-- The commands to a name are those that its pattern is for. -/
theorem covers_anyCommand (command : String) :
    covers (anyCommand root id) (Topic.command root id command) = true := by
  rw [covers, levels_anyCommand, levels_command, levelsMatch_append h.root, h.levels_id]
  change levelsMatch (id.toList :: ["cmd".toList, anyRest])
    (id.toList :: ("cmd".toList :: levels command)) = true
  rw [levelsMatch_cons h.ne_anyRest, levelsMatch_cons (by decide), levelsMatch_anyRest,
    decide_eq_true rfl, decide_eq_true rfl]
  simp

/-- Its replies are not among them. -/
theorem not_covers_anyCommand_reply : covers (anyCommand root id) (reply root id) = false := by
  rw [covers, levels_anyCommand, levels_reply, levelsMatch_append h.root, h.levels_id]
  change levelsMatch (id.toList :: ["cmd".toList, anyRest]) (id.toList :: ["reply".toList]) = false
  rw [levelsMatch_cons h.ne_anyRest, levelsMatch_cons (by decide)]
  have hlevel : (decide ("cmd".toList = anyLevel) || decide ("cmd".toList = "reply".toList)) =
      false := by decide
  rw [hlevel, Bool.false_and, Bool.and_false]

/-- Nor are the commands to another single level. -/
theorem not_covers_anyCommand_of_ne {target : String} (htarget : '/' ∉ target.toList)
    (hne : target ≠ id) (command : String) :
    covers (anyCommand root id) (Topic.command root target command) = false := by
  rw [covers, levels_anyCommand, levels_command, levelsMatch_append h.root, h.levels_id,
    levels_of_notMem htarget]
  change levelsMatch (id.toList :: ["cmd".toList, anyRest])
    (target.toList :: ("cmd".toList :: levels command)) = false
  have hlevel : ¬id.toList = target.toList := fun hid => hne (String.toList_inj.1 hid).symm
  rw [levelsMatch_cons h.ne_anyRest, decide_eq_false h.ne_anyLevel, decide_eq_false hlevel,
    Bool.or_false, Bool.false_and]

/-- The replies of a name are among all replies. -/
theorem covers_anyReply : covers (anyReply root) (reply root id) = true :=
  (covers_anyReply_iff root id).2 ⟨h.level, h.root⟩

/-- No command, to whomever, has the topic of its replies. -/
theorem command_ne_reply (target command : String) :
    Topic.command root target command ≠ reply root id := by
  intro hsame
  have hlevels := congrArg List.length (congrArg levels hsame)
  have htarget := length_levels_pos target
  have hcommand := length_levels_pos command
  rw [levels_command, levels_reply, h.levels_id] at hlevels
  simp only [List.length_append, List.length_cons, List.length_nil] at hlevels
  omega

end Addresses

/-- A command without a slash is the last level of its topic. -/
theorem lastLevel_command (root target : String) {command : String}
    (h : '/' ∉ command.toList) : lastLevel (Topic.command root target command) = command := by
  rw [lastLevel, levels_command, levels_of_notMem h, ← List.append_assoc]
  simp

end Flotilla.Topic

namespace Flotilla.Config

/-- Whatever the first levels, the names and the commands are put together from: the reply of a
target is heard exactly if the target has no slash and no first level stands for all the rest; no
command is ever heard as a reply; and where no first level stands for all the rest, a command to a
target without slashes comes to those devices, of names that are single levels and no wildcards,
whose name is the target. -/
theorem reaches_addressee (config : Config) (target command : String) :
    (Topic.covers config.replyPattern (config.replyTopic target) = true ↔
      '/' ∉ target.toList ∧ Topic.anyRest ∉ Topic.levels config.root) ∧
    Topic.covers config.replyPattern (config.commandTopic target command) = false ∧
    ∀ d : Device, d.root = config.root → Topic.anyRest ∉ Topic.levels config.root →
      '/' ∉ target.toList → '/' ∉ d.id.toList → d.id ≠ "+" → d.id ≠ "#" →
      (Topic.covers d.commandPattern (config.commandTopic target command) = true ↔
        target = d.id) := by
  refine ⟨Topic.covers_anyReply_iff config.root target,
    Topic.not_covers_anyReply_command config.root target command, ?_⟩
  intro d hsame hroot htarget hlevel hanyLevel hanyRest
  have haddresses : Topic.Addresses config.root d.id := ⟨hroot, hlevel, hanyLevel, hanyRest⟩
  rw [Device.commandPattern, hsame, commandTopic]
  constructor
  · intro hcovers
    by_contra hne
    cases (haddresses.not_covers_anyCommand_of_ne htarget hne command).symm.trans hcovers
  · rintro rfl
    exact haddresses.covers_anyCommand command

/-- A fleet whose first levels have an empty one and one that stands for any. -/
def crookedRoot : Config := { standard with root := "lab//+" }

/-- A command that looks like a reply comes to the device that it is for, and to no other, also when
it has slashes; a target that has a slash is not heard, although its topic ends like a reply. -/
theorem reaches_addressee_crookedRoot :
    Topic.covers (Device.new "" "lab//+" "1.0" 0).commandPattern
        (crookedRoot.commandTopic "" "a/reply") = true ∧
      Topic.covers (Device.new "edge-1" "lab//+" "1.0" 0).commandPattern
        (crookedRoot.commandTopic "" "a/reply") = false ∧
      Topic.covers crookedRoot.replyPattern (crookedRoot.replyTopic "edge-1/reply") = false := by
  have hroot : Topic.anyRest ∉ Topic.levels crookedRoot.root := by decide
  obtain ⟨-, -, hcommands⟩ := reaches_addressee crookedRoot "" "a/reply"
  have hself := hcommands (.new "" "lab//+" "1.0" 0) rfl hroot (by decide) (by decide) (by decide)
    (by decide)
  have hother := hcommands (.new "edge-1" "lab//+" "1.0" 0) rfl hroot (by decide) (by decide)
    (by decide) (by decide)
  refine ⟨hself.2 rfl, Bool.eq_false_iff.2 fun hcovers => ?_, Bool.eq_false_iff.2 fun hheard => ?_⟩
  · exact absurd (hother.1 hcovers) (by decide)
  · exact ((reaches_addressee crookedRoot "edge-1/reply" "").1.1 hheard).1 (by decide)

end Flotilla.Config

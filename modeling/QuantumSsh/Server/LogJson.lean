import Mathlib.Data.List.Nodup
import Mathlib.Tactic.Ring
import QuantumSsh.Lib.Json

/-!
# The audit log's JSON lines

The formatter of a log event: one flat object to a line, the keys of the envelope first and
then the fields of the event. What was written reads back as what was recorded.
-/

namespace QuantumSsh.LogJson

open Json (ReadsString Reads ReadsValue)

/-! ### The event -/

/-- What the visitor is given for a field. An error and a value that is only printed come as
their text. -/
inductive Recorded
  | str (t : Text)
  | bool (b : Bool)
  | int (n : ℤ)
  deriving DecidableEq

inductive Level
  | trace
  | debug
  | info
  | warn
  | error

/-- `Level::as_str`. -/
def Level.text : Level → Text
  | .trace => "TRACE".toList
  | .debug => "DEBUG".toList
  | .info => "INFO".toList
  | .warn => "WARN".toList
  | .error => "ERROR".toList

/-- A span: its name and its fields, as they print. -/
structure Span where
  name : Text
  fields : List (Text × Text)

/-- An event with the spans around it, the outermost first. -/
structure Event where
  target : Text
  level : Level
  recorded : List (Text × Recorded)
  scope : List Span

/-! ### The formatter -/

/-- `AUDIT_TARGET`. -/
def auditTarget : Text := "audit".toList

/-- `ENVELOPE_KEYS`. -/
def envelopeKeys : List Text :=
  ["schema_version".toList, "timestamp".toList, "level".toList, "event".toList, "message".toList,
    "peer_addr".toList]

/-- The field that carries the event's text. -/
def messageKey : Text := "message".toList

/-- `Value`. -/
inductive Value
  | str (s : Text)
  | raw (t : Text)

/-- `Fields`. -/
structure Fields where
  message : Option Text
  values : List (Text × Value)

/-- `Fields::push`. -/
def Fields.push (fields : Fields) (name : Text) (value : Value) : Fields :=
  if name = messageKey then
    match value with
    | .str s => { fields with message := some s }
    | .raw _ => fields
  else if name ∉ envelopeKeys then { fields with values := fields.values ++ [(name, value)] }
  else fields

/-- `Visit` for `Fields`. -/
def Fields.visit (fields : Fields) : Text × Recorded → Fields
  | (name, .str t) => fields.push name (.str t)
  | (name, .bool b) => fields.push name (.raw (if b then "true".toList else "false".toList))
  | (name, .int n) => fields.push name (.raw (Json.decimal n))

/-- `Event::record`. -/
def recordAll (recorded : List (Text × Recorded)) : Fields :=
  recorded.foldl Fields.visit { message := none, values := [] }

/-- `ConnectionPeer::on_new_span`: the address that a `connection` span carries. -/
def Span.peerAddr (span : Span) : Option Text :=
  if span.name = "connection".toList then
    span.fields.foldl (fun addr (name, text) => if name = "peer_addr".toList then some text else addr)
      none
  else none

/-- `char::is_control`: C0, DEL and C1. -/
def isControl (c : Char) : Bool := c.toNat < 0x20 || (0x7f ≤ c.toNat && c.toNat < 0xa0)

/-- `{:04x}`. -/
def hexDigits (n : ℕ) : Text :=
  [n / 16 ^ 3 % 16, n / 16 ^ 2 % 16, n / 16 % 16, n % 16].map Nat.digitChar

/-- One character of `write_string`. -/
def escapeChar (c : Char) : Text :=
  if c = '"' then ['\\', '"']
  else if c = '\\' then ['\\', '\\']
  else if isControl c then '\\' :: 'u' :: hexDigits c.toNat
  else [c]

/-- `write_string`. -/
def writeString (s : Text) : Text := '"' :: (s.flatMap escapeChar ++ ['"'])

/-- The value as it is written. -/
def Value.write : Value → Text
  | .str s => writeString s
  | .raw t => t

/-- `format_event`, with the time it has formatted. -/
def formatEvent (timestamp : Text) (event : Event) : Text :=
  let fields := recordAll event.recorded
  let nameKey := if event.target = auditTarget then "event".toList else "message".toList
  "\x7b\"schema_version\":1,\"timestamp\":".toList ++ writeString timestamp ++
    ",\"level\":".toList ++ writeString event.level.text ++
    ",\"".toList ++ nameKey ++ "\":".toList ++ writeString (fields.message.getD []) ++
    (match event.scope.findSome? Span.peerAddr with
      | some peerAddr => ",\"peer_addr\":".toList ++ writeString peerAddr
      | none => []) ++
    (fields.values.flatMap fun (name, value) => ',' :: (writeString name ++ ':' :: value.write)) ++
    "\x7d\n".toList

/-! ### Strings -/

theorem hexValue_digitChar {d : ℕ} (h : d < 16) : Json.hexValue (Nat.digitChar d) = some d := by
  have hall : ∀ d : Fin 16, Json.hexValue (Nat.digitChar d) = some d.val := by decide
  exact hall ⟨d, h⟩

theorem isControl_digitChar {d : ℕ} (h : d < 16) : isControl (Nat.digitChar d) = false := by
  have hall : ∀ d : Fin 16, isControl (Nat.digitChar d) = false := by decide
  exact hall ⟨d, h⟩

theorem lt_of_isControl {c : Char} (h : isControl c = true) : c.toNat < 0xa0 := by
  simp only [isControl, Bool.or_eq_true, Bool.and_eq_true, decide_eq_true_eq] at h
  omega

/-- An escaped character reads as itself. -/
theorem string_escapeChar (c : Char) (rest : Text) :
    Json.string (escapeChar c ++ rest) = Json.push c (Json.string rest) := by
  rw [escapeChar]
  split_ifs with hquote hslash hcontrol
  · subst hquote
    exact Json.string_short (by decide) (by decide) rest
  · subst hslash
    exact Json.string_short (by decide) (by decide) rest
  · have hlt := lt_of_isControl hcontrol
    have hhex : Json.hex4 (Nat.digitChar (c.toNat / 16 ^ 3 % 16))
        (Nat.digitChar (c.toNat / 16 ^ 2 % 16)) (Nat.digitChar (c.toNat / 16 % 16))
        (Nat.digitChar (c.toNat % 16)) = some c.toNat := by
      rw [Json.hex4]
      iterate 4 rw [hexValue_digitChar (Nat.mod_lt _ (by decide))]
      simp only [Option.bind_eq_bind, Option.bind_some, Option.pure_def, Option.some.injEq]
      omega
    have hread := Json.string_hex hhex (by omega) rest
    rwa [Char.ofNat_toNat] at hread
  · refine Json.string_plain hquote hslash ?_ rest
    by_contra hlt
    exact hcontrol (by simp only [isControl, Bool.or_eq_true, decide_eq_true_eq]; omega)

/-- A written string reads as what it was written for. -/
theorem readsString_flatMap (s : Text) : ReadsString (s.flatMap escapeChar ++ ['"']) s := by
  intro rest
  induction s with
  | nil => exact Json.string_quote rest
  | cons c s ih =>
    rw [List.flatMap_cons, List.append_assoc, List.append_assoc, string_escapeChar,
      ← List.append_assoc, ih]
    rfl

theorem isControl_escapeChar {c d : Char} (h : d ∈ escapeChar c) : isControl d = false := by
  rw [escapeChar] at h
  split_ifs at h with hquote hslash hcontrol
  · rcases List.mem_pair.1 h with rfl | rfl <;> decide
  · rcases List.mem_pair.1 h with rfl | rfl <;> decide
  · rcases List.mem_cons.1 h with rfl | h
    · decide
    rcases List.mem_cons.1 h with rfl | h
    · decide
    obtain ⟨n, hn, rfl⟩ := List.mem_map.1 h
    refine isControl_digitChar ?_
    simp only [List.mem_cons, List.not_mem_nil, or_false] at hn
    omega
  · rw [List.mem_singleton.1 h]
    simpa using hcontrol

theorem isControl_writeString {s : Text} : ∀ c ∈ writeString s, isControl c = false := by
  intro c hc
  rcases List.mem_cons.1 hc with rfl | hc
  · decide
  rcases List.mem_append.1 hc with hc | hc
  · obtain ⟨d, -, hd⟩ := List.mem_flatMap.1 hc
    exact isControl_escapeChar hd
  · rw [List.mem_singleton.1 hc]
    decide

/-! ### The fields -/

/-- The value that a field records. -/
def Recorded.value : Recorded → Json.Value
  | .str t => .str t
  | .bool b => .bool b
  | .int n => .int n

/-- The value as the formatter keeps it. -/
def Recorded.kept : Recorded → Value
  | .str t => .str t
  | .bool b => .raw (if b then "true".toList else "false".toList)
  | .int n => .raw (Json.decimal n)

/-- The text of the event: its field `message`, where that is a text. -/
def Event.message (event : Event) : Text :=
  match event.recorded.lookup messageKey with
  | some (.str t) => t
  | _ => []

/-- The fields that are not named like a key of the envelope. -/
def Event.own (event : Event) : List (Text × Recorded) :=
  event.recorded.filter fun field => decide (field.1 ∉ envelopeKeys)

/-- The members of the envelope, the first one apart. -/
def envelope (timestamp : Text) (event : Event) : List (Text × Json.Value) :=
  [("timestamp".toList, .str timestamp), ("level".toList, .str event.level.text),
    (if event.target = auditTarget then "event".toList else "message".toList, .str event.message)] ++
    (event.scope.findSome? Span.peerAddr).toList.map fun addr => ("peer_addr".toList, .str addr)

theorem visit_eq (fields : Fields) (field : Text × Recorded) :
    fields.visit field = fields.push field.1 field.2.kept := by
  obtain ⟨name, t | b | n⟩ := field <;> rfl

theorem push_values (fields : Fields) (name : Text) (v : Value) :
    (fields.push name v).values =
      fields.values ++ if name ∉ envelopeKeys then [(name, v)] else [] := by
  rw [Fields.push.eq_def]
  by_cases hmessage : name = messageKey
  · subst hmessage
    have hmem : messageKey ∈ envelopeKeys := by decide
    rw [if_pos rfl, if_neg (not_not.2 hmem), List.append_nil]
    cases v <;> rfl
  · rw [if_neg hmessage]
    by_cases henvelope : name ∈ envelopeKeys
    · rw [if_neg (not_not.2 henvelope), if_neg (not_not.2 henvelope), List.append_nil]
    · rw [if_pos henvelope, if_pos henvelope]

theorem foldl_visit_values (recorded : List (Text × Recorded)) (fields : Fields) :
    (recorded.foldl Fields.visit fields).values = fields.values ++
      (recorded.filter fun field => decide (field.1 ∉ envelopeKeys)).map fun field =>
        (field.1, field.2.kept) := by
  induction recorded generalizing fields with
  | nil => simp
  | cons field recorded ih =>
    rw [List.foldl_cons, ih, visit_eq, push_values]
    by_cases hname : field.1 ∈ envelopeKeys
    · rw [if_neg (not_not.2 hname), List.append_nil, List.filter_cons_of_neg (by simpa using hname)]
    · rw [if_pos hname, List.filter_cons_of_pos (by simpa using hname), List.map_cons,
        List.append_assoc, List.singleton_append]

/-- Only the field `message` sets the message. -/
theorem push_message_of_ne (fields : Fields) {name : Text} (hname : name ≠ messageKey)
    (v : Value) : (fields.push name v).message = fields.message := by
  rw [Fields.push.eq_def, if_neg hname]
  split_ifs <;> rfl

theorem foldl_visit_message_of_notMem (recorded : List (Text × Recorded)) (fields : Fields)
    (h : messageKey ∉ recorded.map Prod.fst) :
    (recorded.foldl Fields.visit fields).message = fields.message := by
  induction recorded generalizing fields with
  | nil => rfl
  | cons field recorded ih =>
    rw [List.map_cons, List.mem_cons, not_or] at h
    rw [List.foldl_cons, ih _ h.2, visit_eq, push_message_of_ne fields (Ne.symm h.1)]

theorem recordAll_message (event : Event) (hdistinct : (event.recorded.map Prod.fst).Nodup) :
    (recordAll event.recorded).message.getD [] = event.message := by
  rw [recordAll, Event.message]
  generalize hfields : ({ message := none, values := [] } : Fields) = fields
  have hnone : fields.message = none := by rw [← hfields]
  clear hfields
  generalize event.recorded = recorded at hdistinct ⊢
  induction recorded generalizing fields with
  | nil => simp [hnone]
  | cons field recorded ih =>
    obtain ⟨name, r⟩ := field
    rw [List.map_cons, List.nodup_cons] at hdistinct
    rw [List.foldl_cons, List.lookup_cons]
    by_cases hname : name = messageKey
    · subst hname
      rw [foldl_visit_message_of_notMem _ _ hdistinct.1, visit_eq, Fields.push.eq_def, if_pos rfl]
      cases r <;> simp [Recorded.kept, hnone]
    · have hbeq : (messageKey == name) = false := by simpa using Ne.symm hname
      rw [hbeq]
      refine ih _ ?_ hdistinct.2
      rw [visit_eq, push_message_of_ne _ hname, hnone]

/-! ### The line -/

/-- A member of the object, as it is written. -/
def memberText (key w : Text) : Text := writeString key ++ ':' :: w

/-- The members behind the first one, as they are written. -/
def memberTexts (timestamp : Text) (event : Event) : List Text :=
  [memberText "timestamp".toList (writeString timestamp),
    memberText "level".toList (writeString event.level.text),
    memberText (if event.target = auditTarget then "event".toList else "message".toList)
      (writeString ((recordAll event.recorded).message.getD []))] ++
    ((event.scope.findSome? Span.peerAddr).toList.map fun addr =>
      memberText "peer_addr".toList (writeString addr)) ++
    (recordAll event.recorded).values.map fun (name, value) => memberText name value.write

theorem formatEvent_eq (timestamp : Text) (event : Event) :
    formatEvent timestamp event = '\x7b' :: (memberText "schema_version".toList ['1'] ++
      (memberTexts timestamp event).flatMap (',' :: ·) ++ '\x7d' :: ['\n']) := by
  have hfirst : "\x7b\"schema_version\":1,\"timestamp\":".toList =
      '\x7b' :: memberText "schema_version".toList ['1'] ++
        ',' :: (writeString "timestamp".toList ++ [':']) := by decide
  have hname : ",\"".toList ++ ((if event.target = auditTarget then "event".toList
      else "message".toList) ++ "\":".toList) = ',' :: (writeString (if event.target = auditTarget
        then "event".toList else "message".toList) ++ [':']) := by
    split_ifs <;> decide
  have hnameRest : ∀ rest, ",\"".toList ++ ((if event.target = auditTarget then "event".toList
      else "message".toList) ++ ("\":".toList ++ rest)) = ',' :: (writeString (if event.target =
        auditTarget then "event".toList else "message".toList) ++ ':' :: rest) := by
    intro rest
    have happend := congrArg (· ++ rest) hname
    simpa only [List.append_assoc, List.cons_append, List.nil_append] using happend
  have hlevel : ",\"level\":".toList = ',' :: (writeString "level".toList ++ [':']) := by decide
  have hend : "\x7d\n".toList = '\x7d' :: ['\n'] := by decide
  have hvalues : ((recordAll event.recorded).values.map fun (name, value) =>
      memberText name value.write).flatMap (',' :: ·) =
      (recordAll event.recorded).values.flatMap fun (name, value) =>
        ',' :: (writeString name ++ ':' :: value.write) := by
    rw [List.flatMap_map]
    rfl
  have hpeer : (match event.scope.findSome? Span.peerAddr with
      | some peerAddr => ",\"peer_addr\":".toList ++ writeString peerAddr
      | none => []) = ((event.scope.findSome? Span.peerAddr).toList.map fun addr =>
        memberText "peer_addr".toList (writeString addr)).flatMap (',' :: ·) := by
    cases event.scope.findSome? Span.peerAddr with
    | none => rfl
    | some addr =>
      have hliteral : ",\"peer_addr\":".toList =
          ',' :: (writeString "peer_addr".toList ++ [':']) := by
        decide
      simp only [hliteral, Option.toList_some, List.map_cons, List.map_nil, List.flatMap_cons,
        List.flatMap_nil, memberText, List.cons_append, List.append_assoc, List.nil_append,
        List.append_nil]
  unfold formatEvent
  dsimp only
  rw [hpeer]
  simp only [memberTexts, List.flatMap_append, hvalues]
  simp only [hfirst, hlevel, hend, List.append_assoc, List.cons_append, List.nil_append,
    List.flatMap_cons,
    List.flatMap_nil, List.append_nil, memberText, hnameRest]

theorem reads_memberText {key w : Text} {v : Json.Value} (h : ReadsValue w v) :
    Reads (memberText key w) (key, v) := by
  have hparts := Reads.of_parts (readsString_flatMap key) h
  rwa [memberText, writeString, List.cons_append]

theorem readsValue_writeString (s : Text) : ReadsValue (writeString s) (.str s) :=
  Json.readsValue_string (readsString_flatMap s)

theorem readsValue_kept (r : Recorded) : ReadsValue r.kept.write r.value := by
  cases r with
  | str t => exact readsValue_writeString t
  | bool b => exact Json.readsValue_bool b
  | int n => exact Json.readsValue_decimal n

theorem reads_memberTexts (timestamp : Text) {event : Event}
    (hdistinct : (event.recorded.map Prod.fst).Nodup) :
    List.Forall₂ Reads (memberTexts timestamp event)
      (envelope timestamp event ++ event.own.map fun field => (field.1, field.2.value)) := by
  rw [memberTexts, recordAll_message event hdistinct]
  refine List.rel_append (List.rel_append ?_ ?_) ?_
  · exact .cons (reads_memberText (readsValue_writeString _))
      (.cons (reads_memberText (readsValue_writeString _))
        (.cons (reads_memberText (readsValue_writeString _)) .nil))
  · rw [List.forall₂_map_left_iff, List.forall₂_map_right_iff, List.forall₂_same]
    exact fun addr _ => reads_memberText (readsValue_writeString addr)
  · rw [recordAll, foldl_visit_values, List.nil_append, List.forall₂_map_left_iff,
      List.forall₂_map_left_iff, List.forall₂_map_right_iff]
    exact List.forall₂_same.2 fun field _ => reads_memberText (readsValue_kept field.2)

/-- The whole object: the envelope, then the event's own fields. -/
def object (timestamp : Text) (event : Event) : List (Text × Json.Value) :=
  ("schema_version".toList, .int 1) :: envelope timestamp event ++
    event.own.map fun field => (field.1, field.2.value)

theorem object_formatEvent (timestamp : Text) {event : Event}
    (hdistinct : (event.recorded.map Prod.fst).Nodup) :
    Json.object (formatEvent timestamp event) = some (object timestamp event) := by
  rw [formatEvent_eq]
  have hversion : Reads (memberText "schema_version".toList ['1'])
      ("schema_version".toList, .int 1) := reads_memberText (Json.readsValue_decimal 1)
  exact Json.object_of_reads hversion (reads_memberTexts timestamp hdistinct) rfl

/-- The keys of the envelope, of an audit record or another one, with an address or without. -/
def envelopeNames (audit peer : Bool) : List Text :=
  ["schema_version".toList, "timestamp".toList, "level".toList,
    if audit then "event".toList else "message".toList] ++ if peer then ["peer_addr".toList] else []

theorem envelopeNames_spec : ∀ audit peer, (envelopeNames audit peer).Nodup ∧
    ∀ key ∈ envelopeNames audit peer, key ∈ envelopeKeys := by
  decide

theorem map_fst_envelope (timestamp : Text) (event : Event) :
    (("schema_version".toList, .int 1) :: envelope timestamp event).map Prod.fst =
      envelopeNames (event.target = auditTarget) (event.scope.findSome? Span.peerAddr).isSome := by
  rw [envelope, envelopeNames]
  by_cases htarget : event.target = auditTarget
  · cases event.scope.findSome? Span.peerAddr <;> simp [htarget]
  · cases event.scope.findSome? Span.peerAddr <;> simp [htarget]

/-- No field of the event has a key of the envelope. -/
theorem keys_nodup (timestamp : Text) {event : Event}
    (hdistinct : (event.recorded.map Prod.fst).Nodup) :
    ((object timestamp event).map Prod.fst).Nodup := by
  obtain ⟨hnodup, henvelope⟩ := envelopeNames_spec (event.target = auditTarget)
    (event.scope.findSome? Span.peerAddr).isSome
  have hown : (event.own.map fun field => (field.1, field.2.value)).map Prod.fst =
      event.own.map Prod.fst := by
    rw [List.map_map]
    rfl
  rw [object, List.map_append, map_fst_envelope, hown, List.nodup_append']
  refine ⟨hnodup, ?_, ?_⟩
  · exact hdistinct.sublist (List.filter_sublist.map _)
  · intro key hkey hmem
    obtain ⟨field, hfield, rfl⟩ := List.mem_map.1 hmem
    have hnot := List.of_mem_filter hfield
    exact absurd (henvelope _ hkey) (by simpa using hnot)

theorem isControl_memberText {key w : Text} (hw : ∀ c ∈ w, isControl c = false) :
    ∀ c ∈ memberText key w, isControl c = false := by
  intro c hc
  rcases List.mem_append.1 hc with hc | hc
  · exact isControl_writeString c hc
  rcases List.mem_cons.1 hc with rfl | hc
  · decide
  · exact hw c hc

theorem isControl_of_isDigit {c : Char} (h : c.isDigit = true) : isControl c = false := by
  simp only [Char.isDigit, Bool.and_eq_true, decide_eq_true_eq] at h
  have hlow : 0x30 ≤ c.toNat := h.1
  have hhigh : c.toNat ≤ 0x39 := h.2
  simp only [isControl, Bool.or_eq_false_iff, Bool.and_eq_false_iff, decide_eq_false_iff_not]
  omega

theorem isControl_kept (r : Recorded) : ∀ c ∈ r.kept.write, isControl c = false := by
  cases r with
  | str t => exact isControl_writeString
  | bool b => cases b <;> decide
  | int n =>
    intro c hc
    change c ∈ Json.decimal n at hc
    rw [Json.decimal] at hc
    split_ifs at hc
    · rcases List.mem_cons.1 hc with rfl | hc
      · decide
      · exact isControl_of_isDigit (Json.isDigit_of_mem hc)
    · exact isControl_of_isDigit (Json.isDigit_of_mem hc)

theorem isControl_memberTexts {timestamp : Text} {event : Event} {w : Text}
    (h : w ∈ memberTexts timestamp event) : ∀ c ∈ w, isControl c = false := by
  rw [memberTexts, List.mem_append, List.mem_append] at h
  obtain (h | h) | h := h
  · simp only [List.mem_cons, List.not_mem_nil, or_false] at h
    obtain rfl | rfl | rfl := h <;> exact isControl_memberText isControl_writeString
  · obtain ⟨addr, -, rfl⟩ := List.mem_map.1 h
    exact isControl_memberText isControl_writeString
  · rw [recordAll, foldl_visit_values, List.nil_append, List.map_map] at h
    obtain ⟨field, -, rfl⟩ := List.mem_map.1 h
    exact isControl_memberText (isControl_kept field.2)

/-- A line of the log cannot be forged. Whatever the event holds, its line ends at the one
control character, the newline, and reads as the object of the envelope and the event's own
fields, in which no key stands twice. -/
theorem formatEvent_unforgeable (timestamp : Text) {event : Event}
    (hdistinct : (event.recorded.map Prod.fst).Nodup) :
    (∃ line, formatEvent timestamp event = line ++ ['\n'] ∧ ∀ c ∈ line, isControl c = false) ∧
      Json.object (formatEvent timestamp event) = some (object timestamp event) ∧
      ((object timestamp event).map Prod.fst).Nodup := by
  refine ⟨⟨'\x7b' :: (memberText "schema_version".toList ['1'] ++
    (memberTexts timestamp event).flatMap (',' :: ·) ++ ['\x7d']), ?_, ?_⟩,
    object_formatEvent timestamp hdistinct, keys_nodup timestamp hdistinct⟩
  · rw [formatEvent_eq]
    simp only [List.cons_append, List.append_assoc, List.nil_append]
  · intro c hc
    rcases List.mem_cons.1 hc with rfl | hc
    · decide
    rcases List.mem_append.1 hc with hc | hc
    · rcases List.mem_append.1 hc with hc | hc
      · exact isControl_memberText (by decide) c hc
      · obtain ⟨w, hw, hc⟩ := List.mem_flatMap.1 hc
        rcases List.mem_cons.1 hc with rfl | hc
        · decide
        · exact isControl_memberTexts hw c hc
    · rw [List.mem_singleton.1 hc]
      decide

/-- An audit event with a field that is named like a key and one that tries to close the
object. -/
def forgery : Event where
  target := auditTarget
  level := .warn
  recorded := [(messageKey, .str "auth.failed".toList), ("level".toList, .str "INFO".toList),
    ("user".toList, .str "a\"\x7d\n".toList), ("failure_count".toList, .int 1)]
  scope := []

theorem formatEvent_unforgeable_forgery :
    Json.object (formatEvent "T".toList forgery) =
      some [("schema_version".toList, .int 1), ("timestamp".toList, .str "T".toList),
        ("level".toList, .str "WARN".toList), ("event".toList, .str "auth.failed".toList),
        ("user".toList, .str "a\"\x7d\n".toList), ("failure_count".toList, .int 1)] := by
  have hobject := (@formatEvent_unforgeable "T".toList forgery (by decide)).2.1
  exact hobject

end QuantumSsh.LogJson

/-
# The names of messages in the log

`TraceMsg.cc` writes the pair of a main id and a sub id, by which the servers tell their
messages apart, as two lines of the log: each has the name of the enumerator, the number, and a
description.  Heartbeats between a client and the hall or a game server are left out unless they
are asked for.

The numbers of the enumerators are in protobuf files that are not in the repository, so they are
a parameter `value`.  Whatever the numbers are, a text that was written names its message: the
two ids can be read back.
-/
import CppServer.Lib.Decimal

namespace CppServer.Trace

/-- The UTF-8 bytes of a string literal. -/
def utf8 (s : String) : Bytes := s.toList.flatMap String.utf8EncodeChar

/-- The levels of the logger. -/
inductive Level where
  | fatal
  | error
  | warn
  | critical
  | info
  | debug
  | trace
deriving DecidableEq

/-- A row of a table: the enumerator, its description and the level. -/
structure Row where
  name_ : String
  desc_ : String
  level_ : Level
deriving DecidableEq

/-! ## The tables -/

/-- `mainid_`: the servers that a message is for. -/
def mainid_ : List Row := [
  ⟨"::Game::Common::MAINID::MAIN_MESSAGE_CLIENT_ID_BEGIN",
    "", .debug⟩,
  ⟨"::Game::Common::MAINID::MAIN_MESSAGE_CLIENT_TO_PROXY",
    "网关服", .debug⟩,
  ⟨"::Game::Common::MAINID::MAIN_MESSAGE_CLIENT_TO_HALL",
    "大厅服", .debug⟩,
  ⟨"::Game::Common::MAINID::MAIN_MESSAGE_CLIENT_TO_GAME_SERVER",
    "游戏服", .debug⟩,
  ⟨"::Game::Common::MAINID::MAIN_MESSAGE_CLIENT_TO_GAME_LOGIC",
    "逻辑服", .debug⟩,
  ⟨"::Game::Common::MAINID::MAIN_MESSAGE_PROXY_TO_HALL",
    "大厅服", .debug⟩,
  ⟨"::Game::Common::MAINID::MAIN_MESSAGE_HALL_TO_PROXY",
    "网关服", .debug⟩,
  ⟨"::Game::Common::MAINID::MAIN_MESSAGE_PROXY_TO_GAME_SERVER",
    "游戏服", .debug⟩,
  ⟨"::Game::Common::MAINID::MAIN_MESSAGE_GAME_SERVER_TO_PROXY",
    "网关服", .debug⟩]

/-- `subid_client_to_server_`: the heartbeats. -/
def subid_client_to_server_ : List Row := [
  ⟨"::Game::Common::MESSAGE_CLIENT_TO_SERVER_SUBID::MESSAGE_CLIENT_TO_SERVER_SUBID_BEGIN",
    "", .debug⟩,
  ⟨"::Game::Common::MESSAGE_CLIENT_TO_SERVER_SUBID::KEEP_ALIVE_REQ",
    "心跳 SYN", .debug⟩,
  ⟨"::Game::Common::MESSAGE_CLIENT_TO_SERVER_SUBID::KEEP_ALIVE_RES",
    "心跳 ACK", .debug⟩]

/-- `subid_client_to_proxy_`: messages between a client and the gate. -/
def subid_client_to_proxy_ : List Row := [
  ⟨"::Game::Common::MESSAGE_CLIENT_TO_PROXY_SUBID::MESSAGE_CLIENT_TO_PROXY_SUBID_BEGIN",
    "", .debug⟩,
  ⟨"::Game::Common::MESSAGE_CLIENT_TO_PROXY_SUBID::CLIENT_TO_PROXY_GET_AES_KEY_MESSAGE_REQ",
    "查询AESKey REQ", .debug⟩,
  ⟨"::Game::Common::MESSAGE_CLIENT_TO_PROXY_SUBID::CLIENT_TO_PROXY_GET_AES_KEY_MESSAGE_RES",
    "查询AESKey RSP", .debug⟩,
  ⟨"::Game::Common::MESSAGE_CLIENT_TO_PROXY_SUBID::CLIENT_TO_PROXY_BIND_USER_CONNECTION_MESSAGE_REQ",
    "绑定用户连接REQ", .debug⟩,
  ⟨"::Game::Common::MESSAGE_CLIENT_TO_PROXY_SUBID::CLIENT_TO_PROXY_BIND_USER_CONNECTION_MESSAGE_RES",
    "绑定用户连接RSP", .debug⟩,
  ⟨"::Game::Common::MESSAGE_CLIENT_TO_PROXY_SUBID::CLIENT_TO_PROXY_BIND_GAME_SERVER_MESSAGE_REQ",
    "绑定游戏服REQ", .debug⟩,
  ⟨"::Game::Common::MESSAGE_CLIENT_TO_PROXY_SUBID::CLIENT_TO_PROXY_BIND_GAME_SERVER_MESSAGE_RES",
    "绑定游戏服RSP", .debug⟩,
  ⟨"::Game::Common::MESSAGE_CLIENT_TO_PROXY_SUBID::PROXY_NOTIFY_SHUTDOWN_USER_CLIENT_MESSAGE_NOTIFY",
    "关闭客户端通知", .debug⟩,
  ⟨"::Game::Common::MESSAGE_CLIENT_TO_PROXY_SUBID::PROXY_NOTIFY_PUBLIC_NOTICE_MESSAGE_NOTIFY",
    "订阅通知", .debug⟩,
  ⟨"::Game::Common::MESSAGE_CLIENT_TO_PROXY_SUBID::PROXY_NOTIFY_USER_ORDER_SCORE_MESSAGE",
    "用户上下分通知!!!", .debug⟩]

/-- `subid_client_to_hall_`: messages between a client and the hall. -/
def subid_client_to_hall_ : List Row := [
  ⟨"::Game::Common::MESSAGE_CLIENT_TO_HALL_SUBID::MESSAGE_CLIENT_TO_HALL_SUBID_BEGIN",
    "", .debug⟩,
  ⟨"::Game::Common::MESSAGE_CLIENT_TO_HALL_SUBID::CLIENT_TO_HALL_LOGIN_MESSAGE_REQ",
    "登陆大厅REQ", .info⟩,
  ⟨"::Game::Common::MESSAGE_CLIENT_TO_HALL_SUBID::CLIENT_TO_HALL_LOGIN_MESSAGE_RES",
    "登陆大厅RSP", .info⟩,
  ⟨"::Game::Common::MESSAGE_CLIENT_TO_HALL_SUBID::CLIENT_TO_HALL_GET_GAME_ROOM_INFO_REQ",
    "获取所有游戏列表REQ", .warn⟩,
  ⟨"::Game::Common::MESSAGE_CLIENT_TO_HALL_SUBID::CLIENT_TO_HALL_GET_GAME_ROOM_INFO_RES",
    "获取所有游戏列表RSP", .warn⟩,
  ⟨"::Game::Common::MESSAGE_CLIENT_TO_HALL_SUBID::CLIENT_TO_HALL_GET_GAME_SERVER_MESSAGE_REQ",
    "查询指定游戏节点REQ", .warn⟩,
  ⟨"::Game::Common::MESSAGE_CLIENT_TO_HALL_SUBID::CLIENT_TO_HALL_GET_GAME_SERVER_MESSAGE_RES",
    "查询指定游戏节点RSP", .warn⟩,
  ⟨"::Game::Common::MESSAGE_CLIENT_TO_HALL_SUBID::CLIENT_TO_HALL_GET_PLAYING_GAME_INFO_MESSAGE_REQ",
    "查询正在玩的游戏REQ", .warn⟩,
  ⟨"::Game::Common::MESSAGE_CLIENT_TO_HALL_SUBID::CLIENT_TO_HALL_GET_PLAYING_GAME_INFO_MESSAGE_RES",
    "查询正在玩的游戏RSP", .warn⟩]

/-- `subid_client_to_game_server_`: messages between a client and a game server. -/
def subid_client_to_game_server_ : List Row := [
  ⟨"::GameServer::SUBID::SUBID_BEGIN",
    "", .debug⟩,
  ⟨"::GameServer::SUBID::SUB_C2S_ENTER_ROOM_REQ",
    "进入房间REQ", .info⟩,
  ⟨"::GameServer::SUBID::SUB_S2C_ENTER_ROOM_RES",
    "进入房间RSP", .info⟩,
  ⟨"::GameServer::SUBID::SUB_C2S_USER_READY_REQ",
    "用户准备REQ", .info⟩,
  ⟨"::GameServer::SUBID::SUB_S2C_USER_READY_RES",
    "用户准备RSP", .info⟩,
  ⟨"::GameServer::SUBID::SUB_C2S_USER_LEFT_REQ",
    "用户离开REQ", .info⟩,
  ⟨"::GameServer::SUBID::SUB_S2C_USER_LEFT_RES",
    "用户离开RSP", .info⟩]

/-- `subid_proxy_to_hall_`: messages of the gate to the hall. -/
def subid_proxy_to_hall_ : List Row := [
  ⟨"::Game::Common::MESSAGE_PROXY_TO_HALL_SUBID::HALL_ON_USER_OFFLINE",
    "用户离线", .debug⟩]

/-- `subid_proxy_to_game_server_`: messages of the gate to a game server. -/
def subid_proxy_to_game_server_ : List Row := [
  ⟨"::GameServer::SUBID::SUB_S2C_ENTER_ROOM_RES",
    "进入房间RSP", .info⟩,
  ⟨"::GameServer::SUBID::SUB_S2C_USER_LEFT_RES",
    "用户离开RSP", .info⟩,
  ⟨"::Game::Common::MESSAGE_PROXY_TO_GAME_SERVER_SUBID::GAME_SERVER_ON_USER_OFFLINE",
    "用户离线", .debug⟩]

/-! ## The functions -/

/-- The enumerators of the switch. -/
def clientToProxy : String := "::Game::Common::MAINID::MAIN_MESSAGE_CLIENT_TO_PROXY"

/-- Of a client for the hall. -/
def clientToHall : String := "::Game::Common::MAINID::MAIN_MESSAGE_CLIENT_TO_HALL"

/-- Of a client for a game server. -/
def clientToGameServer : String := "::Game::Common::MAINID::MAIN_MESSAGE_CLIENT_TO_GAME_SERVER"

/-- Of the gate for the hall. -/
def proxyToHall : String := "::Game::Common::MAINID::MAIN_MESSAGE_PROXY_TO_HALL"

/-- Of the hall for the gate, for which there is no table. -/
def hallToProxy : String := "::Game::Common::MAINID::MAIN_MESSAGE_HALL_TO_PROXY"

/-- Of the gate for a game server. -/
def proxyToGameServer : String := "::Game::Common::MAINID::MAIN_MESSAGE_PROXY_TO_GAME_SERVER"

variable (value : String → ℤ)

/-- The id is the number of the enumerator. -/
def Is (id : UInt8) (name : String) : Prop := value name = id.toNat

instance (id : UInt8) (name : String) : Decidable (Is value id name) :=
  inferInstanceAs (Decidable (_ = _))

/-- A name, a description and the level, which is `none` while it is not initialised. -/
structure Found where
  name : Bytes
  desc : Bytes
  lvl : Option Level
deriving DecidableEq

/-- `MY_CMD_DESC`: the first row with the id is taken over. -/
def cmdDesc (id : UInt8) (rows : List Row) (f : Found) : Found :=
  match rows.find? fun row => Is value id row.name_ with
  | some row => ⟨utf8 row.name_, utf8 row.desc_, some row.level_⟩
  | none => f

/-- The switch of `strMessageId`. -/
def subDesc (mainId subId : UInt8) (trace_hall_heartbeat trace_game_heartbeat : Bool)
    (f : Found) : Found :=
  if Is value mainId clientToProxy then cmdDesc value subId subid_client_to_proxy_ f
  else if Is value mainId clientToHall then
    let f := if trace_hall_heartbeat then cmdDesc value subId subid_client_to_server_ f else f
    if f.name.isEmpty then cmdDesc value subId subid_client_to_hall_ f else f
  else if Is value mainId clientToGameServer then
    let f := if trace_game_heartbeat then cmdDesc value subId subid_client_to_server_ f else f
    if f.name.isEmpty then cmdDesc value subId subid_client_to_game_server_ f else f
  else if Is value mainId proxyToHall then cmdDesc value subId subid_proxy_to_hall_ f
  else if Is value mainId hallToProxy then f
  else if Is value mainId proxyToGameServer then
    cmdDesc value subId subid_proxy_to_game_server_ f
  else f

/-- A message of a client to the hall or to a game server that has no name. -/
def leftOut (mainId : UInt8) (strSubID : Bytes) : Bool :=
  (Is value mainId clientToHall ∨ Is value mainId clientToGameServer) && strSubID.isEmpty

/-- The four strings of `strMessageId`. -/
structure MessageText where
  strMainID : Bytes
  strMainDesc : Bytes
  strSubID : Bytes
  strSubDesc : Bytes
deriving DecidableEq

/-- A colon and the number. -/
def number (id : UInt8) : Bytes := 58 :: digits id.toNat

/-- `strMessageId`: the four strings and the level.  The numbers are added unless the message is
left out. -/
def strMessageId (t : MessageText) (mainId subId : UInt8)
    (trace_hall_heartbeat trace_game_heartbeat : Bool) : MessageText × Option Level :=
  let m := cmdDesc value mainId mainid_ ⟨t.strMainID, t.strMainDesc, none⟩
  let f := subDesc value mainId subId trace_hall_heartbeat trace_game_heartbeat
    ⟨t.strSubID, t.strSubDesc, m.lvl⟩
  if leftOut value mainId f.name then (⟨m.name, m.desc, f.name, f.desc⟩, f.lvl)
  else (⟨m.name ++ number mainId, m.desc, f.name ++ number subId, f.desc⟩, f.lvl)

/-- An id with its description. -/
def withDesc (id desc : Bytes) : Bytes := if desc.isEmpty then id else id ++ (utf8 " - " ++ desc)

/-- `fmtMessageId` of `TraceMsg.cc`: the two lines of a message, or `str` as it was. -/
def fmtMessageId (str : Bytes) (mainId subId : UInt8)
    (trace_hall_heartbeat trace_game_heartbeat : Bool) : Bytes × Option Level :=
  let (t, lvl) := strMessageId value ⟨[], [], [], []⟩ mainId subId trace_hall_heartbeat
    trace_game_heartbeat
  if leftOut value mainId t.strSubID then (str, lvl)
  else (10 :: withDesc t.strMainID t.strMainDesc ++ 10 :: withDesc t.strSubID t.strSubDesc, lvl)

/-- The function `int fmtMessageId(std::string&, ...)` that the header declares. -/
abbrev Callee := Bytes → UInt8 → UInt8 → Bool → Bool → Bytes × Option Level

/-- The calls of the logger that the macro `TraceMessageId` makes.  The header declares the callee
with C++ linkage, where `TraceMsg.cc` defines an `extern "C"` function, so the callee is a
parameter.  The label of the level `critical` has no `break`, and no label fits `fatal`; a level
that is not initialised has no result. -/
def traceMessageId (callee : Callee) (mainId subId : UInt8) : Option (List (Level × Bytes)) :=
  let (s, lvl) := callee [] mainId subId false false
  if s.isEmpty then some []
  else
    match lvl with
    | none => none
    | some .fatal => some []
    | some .critical => some [(.critical, s), (.warn, s)]
    | some lvl => some [(lvl, s)]

/-! ## Reading a message back -/

/-- The number behind the first colon that a digit follows. -/
def readId : Bytes → Option ℕ
  | [] => none
  | c :: rest => if c = 58 ∧ rest.head?.any isDigit then readDigits rest else readId rest

/-- The ids of the message whose lines these are. -/
def readMessageId (text : Bytes) : Option (ℕ × ℕ) := do
  let lines := text.drop 1
  let mainId ← readId (lines.takeWhile (· ≠ 10))
  let subId ← readId ((lines.dropWhile (· ≠ 10)).drop 1)
  return (mainId, subId)

/-- No digit follows a colon. -/
def Plain : Bytes → Bool
  | [] => true
  | c :: rest => !(c = 58 && rest.head?.any isDigit) && Plain rest

/-- A byte of a line that `printf` writes as it stands: not the end of the text, not the end of
the line and not `%`. -/
def Clean (b : UInt8) : Prop := b ≠ 0 ∧ b ≠ 10 ∧ b ≠ 37

instance (b : UInt8) : Decidable (Clean b) := inferInstanceAs (Decidable (_ ∧ _))

/-- The texts of a row: the name is there, no digit follows a colon in it, and both are clean. -/
structure WellFormed (name desc : Bytes) : Prop where
  nonempty : name ≠ []
  plain : Plain name = true
  name_clean : ∀ b ∈ name, Clean b
  desc_clean : ∀ b ∈ desc, Clean b

/-- All tables. -/
def tables : List (List Row) := [mainid_, subid_client_to_server_, subid_client_to_proxy_,
  subid_client_to_hall_, subid_client_to_game_server_, subid_proxy_to_hall_,
  subid_proxy_to_game_server_]

-- A literal is checked as a list of characters, which is faster than as a string.
lemma wellFormed_of_chars (name desc : List Char)
    (h : let bytes := name.flatMap String.utf8EncodeChar
      !bytes.isEmpty && Plain bytes && bytes.all (Clean ·) &&
        (desc.flatMap String.utf8EncodeChar).all (Clean ·)) :
    WellFormed (utf8 (String.ofList name)) (utf8 (String.ofList desc)) := by
  rw [utf8, utf8, String.toList_ofList, String.toList_ofList]
  simp only [Bool.and_eq_true, Bool.not_eq_true', List.isEmpty_eq_false_iff, List.all_eq_true,
    decide_eq_true_eq] at h
  exact ⟨h.1.1.1, h.1.1.2, h.1.2, h.2⟩

lemma wellFormed_tables :
    ∀ rows ∈ tables, ∀ row ∈ rows, WellFormed (utf8 row.name_) (utf8 row.desc_) := by
  simp only [tables, mainid_, subid_client_to_server_, subid_client_to_proxy_,
    subid_client_to_hall_, subid_client_to_game_server_, subid_proxy_to_hall_,
    subid_proxy_to_game_server_, List.forall_mem_cons, List.not_mem_nil, false_implies,
    implies_true, and_true]
  and_intros
  all_goals exact wellFormed_of_chars _ _ (by decide +kernel)

/-! ## What is found -/

/-- The rows in which the switch looks for the sub id, in their order. -/
def consulted (mainId : UInt8) (trace_hall_heartbeat trace_game_heartbeat : Bool) : List Row :=
  if Is value mainId clientToProxy then subid_client_to_proxy_
  else if Is value mainId clientToHall then
    (if trace_hall_heartbeat then subid_client_to_server_ else []) ++ subid_client_to_hall_
  else if Is value mainId clientToGameServer then
    (if trace_game_heartbeat then subid_client_to_server_ else []) ++ subid_client_to_game_server_
  else if Is value mainId proxyToHall then subid_proxy_to_hall_
  else if Is value mainId hallToProxy then []
  else if Is value mainId proxyToGameServer then subid_proxy_to_game_server_
  else []

/-- The row of an id. -/
def rowOf (id : UInt8) (rows : List Row) : Option Row :=
  rows.find? fun row => Is value id row.name_

/-- The name that a lookup gives, which is empty where there is no row. -/
def nameOf (row : Option Row) : Bytes := row.elim [] fun row => utf8 row.name_

/-- The description that it gives. -/
def descOf (row : Option Row) : Bytes := row.elim [] fun row => utf8 row.desc_

lemma cmdDesc_empty (id : UInt8) (rows : List Row) (lvl : Option Level) :
    cmdDesc value id rows ⟨[], [], lvl⟩ =
      ⟨nameOf (rowOf value id rows), descOf (rowOf value id rows),
        ((rowOf value id rows).map Row.level_).or lvl⟩ := by
  unfold cmdDesc rowOf
  cases rows.find? fun row => Is value id row.name_ with
  | none => simp [nameOf, descOf]
  | some row => simp [nameOf, descOf]

/-- The second table is asked if the first one has no row. -/
lemma cmdDesc_append (id : UInt8) (first second : List Row) (lvl : Option Level)
    (hfirst : first ∈ tables) :
    (if (cmdDesc value id first ⟨[], [], lvl⟩).name.isEmpty then
      cmdDesc value id second (cmdDesc value id first ⟨[], [], lvl⟩)
    else cmdDesc value id first ⟨[], [], lvl⟩) =
      cmdDesc value id (first ++ second) ⟨[], [], lvl⟩ := by
  unfold cmdDesc
  rw [List.find?_append]
  cases hrow : first.find? fun row => Is value id row.name_ with
  | none => simp
  | some row =>
    have hname := (wellFormed_tables first hfirst row (List.mem_of_find?_eq_some hrow)).nonempty
    simp [hname]

lemma subDesc_empty (mainId subId : UInt8) (trace_hall_heartbeat trace_game_heartbeat : Bool)
    (lvl : Option Level) :
    subDesc value mainId subId trace_hall_heartbeat trace_game_heartbeat ⟨[], [], lvl⟩ =
      cmdDesc value subId (consulted value mainId trace_hall_heartbeat trace_game_heartbeat)
        ⟨[], [], lvl⟩ := by
  have happend := fun second =>
    cmdDesc_append value subId subid_client_to_server_ second lvl (by simp [tables])
  unfold subDesc consulted
  split_ifs <;> simp_all [cmdDesc]

/-- A line of the text. -/
def line (row : Option Row) (id : UInt8) : Bytes :=
  withDesc (nameOf row ++ number id) (descOf row)

/-- A message of a client to the hall or to a game server with a sub id that no table has. -/
def Silent (mainId subId : UInt8) (trace_hall_heartbeat trace_game_heartbeat : Bool) : Prop :=
  (Is value mainId clientToHall ∨ Is value mainId clientToGameServer) ∧
    rowOf value subId (consulted value mainId trace_hall_heartbeat trace_game_heartbeat) = none

instance (mainId subId : UInt8) (hall game : Bool) :
    Decidable (Silent value mainId subId hall game) :=
  inferInstanceAs (Decidable (_ ∧ _))

/-- The level of a message: the one of its sub id, else the one of its main id. -/
def levelOf (mainId subId : UInt8) (trace_hall_heartbeat trace_game_heartbeat : Bool) :
    Option Level :=
  ((rowOf value subId (consulted value mainId trace_hall_heartbeat trace_game_heartbeat)).or
    (rowOf value mainId mainid_)).map Row.level_

lemma exists_mem_tables {mainId subId : UInt8} {hall game : Bool} {row : Row}
    (h : rowOf value subId (consulted value mainId hall game) = some row) :
    ∃ rows ∈ tables, row ∈ rows := by
  have hrow := List.mem_of_find?_eq_some h
  unfold consulted at hrow
  split_ifs at hrow <;> simp [tables] at hrow ⊢ <;> tauto

lemma wellFormed_of_rowOf_sub {mainId subId : UInt8} {hall game : Bool} {row : Row}
    (h : rowOf value subId (consulted value mainId hall game) = some row) :
    WellFormed (utf8 row.name_) (utf8 row.desc_) := by
  obtain ⟨rows, hrows, hmem⟩ := exists_mem_tables value h
  exact wellFormed_tables rows hrows row hmem

lemma leftOut_nameOf (mainId subId : UInt8) (hall game : Bool) :
    leftOut value mainId (nameOf (rowOf value subId (consulted value mainId hall game))) = true ↔
      Silent value mainId subId hall game := by
  unfold leftOut Silent
  rw [Bool.and_eq_true, decide_eq_true_eq]
  refine and_congr_right fun _ => ?_
  cases hrow : rowOf value subId (consulted value mainId hall game) with
  | none => simp [nameOf]
  | some row => simpa [nameOf] using (wellFormed_of_rowOf_sub value hrow).nonempty

lemma leftOut_append_number (mainId subId : UInt8) (name : Bytes) :
    leftOut value mainId (name ++ number subId) = false := by
  simp [leftOut, number]

/-- The text and the level of a message. -/
lemma fmtMessageId_eq (str : Bytes) (mainId subId : UInt8) (hall game : Bool) :
    fmtMessageId value str mainId subId hall game =
      (if Silent value mainId subId hall game then str
        else 10 :: line (rowOf value mainId mainid_) mainId ++
          10 :: line (rowOf value subId (consulted value mainId hall game)) subId,
        levelOf value mainId subId hall game) := by
  have hleft := leftOut_nameOf value mainId subId hall game
  have hlevel : ((rowOf value subId (consulted value mainId hall game)).map Row.level_).or
      (((rowOf value mainId mainid_).map Row.level_).or none) =
        levelOf value mainId subId hall game := by
    rw [levelOf, Option.map_or, Option.or_none]
  simp only [fmtMessageId, strMessageId, cmdDesc_empty, subDesc_empty, hlevel]
  by_cases hsilent : Silent value mainId subId hall game
  · simp only [hleft.mpr hsilent, if_true, if_pos hsilent]
  · have hfalse := mt hleft.mp hsilent
    simp only [if_neg hfalse, leftOut_append_number, Bool.false_eq_true, if_false,
      if_neg hsilent, line]

/-! ## The ids of a text -/

lemma readId_append {name : Bytes} (hname : Plain name = true) {rest : Bytes}
    (hrest : rest.head?.any isDigit = false) : readId (name ++ rest) = readId rest := by
  induction name with
  | nil => rfl
  | cons c name ih =>
    rw [Plain, Bool.and_eq_true] at hname
    have hhead : ¬ (c = 58 ∧ (name ++ rest).head?.any isDigit) := by
      rintro ⟨hc, hdigit⟩
      cases name with
      | nil => simp [hrest] at hdigit
      | cons d name =>
        rw [List.cons_append, List.head?_cons, Option.any_some] at hdigit
        simp [hc, hdigit] at hname
    rw [List.cons_append, readId, if_neg hhead, ih hname.2]

lemma readId_number (id : UInt8) {rest : Bytes} (hrest : rest.head?.any isDigit = false) :
    readId (number id ++ rest) = some id.toNat := by
  obtain ⟨d, ds, hd, -⟩ := exists_digits_eq_cons id.toNat
  have hdigit : isDigit d = true := isDigit_of_mem_digits (n := id.toNat) (by simp [hd])
  have hread : readId (number id ++ rest) = readDigits (digits id.toNat ++ rest) := by
    rw [number, List.cons_append, readId, if_pos]
    simp [hd, hdigit]
  rw [hread]
  cases rest with
  | nil => rw [List.append_nil, readDigits_digits]
  | cons b rest => exact readDigits_digits_append id.toNat (by simpa using hrest) rest

lemma clean_of_isDigit {b : UInt8} (hb : isDigit b = true) : Clean b := by
  refine ⟨?_, ?_, ?_⟩ <;> rintro rfl <;> exact absurd hb (by decide)

/-- What a row needs for its line to be read back. -/
structure Readable (row : Option Row) : Prop where
  plain : Plain (nameOf row) = true
  name_clean : ∀ b ∈ nameOf row, Clean b
  desc_clean : ∀ b ∈ descOf row, Clean b

lemma readable_of_wellFormed {row : Option Row}
    (h : ∀ r, row = some r → WellFormed (utf8 r.name_) (utf8 r.desc_)) : Readable row := by
  cases row with
  | none => exact ⟨rfl, by simp [nameOf], by simp [descOf]⟩
  | some r => exact ⟨(h r rfl).plain, (h r rfl).name_clean, (h r rfl).desc_clean⟩

lemma readable_main (mainId : UInt8) : Readable (rowOf value mainId mainid_) :=
  readable_of_wellFormed fun row h =>
    wellFormed_tables mainid_ (by simp [tables]) row (List.mem_of_find?_eq_some h)

lemma readable_sub (mainId subId : UInt8) (hall game : Bool) :
    Readable (rowOf value subId (consulted value mainId hall game)) :=
  readable_of_wellFormed fun _ => wellFormed_of_rowOf_sub value

lemma clean_of_mem_number {id b : UInt8} (hb : b ∈ number id) : Clean b := by
  obtain rfl | hb := List.mem_cons.mp hb
  · decide
  · exact clean_of_isDigit (isDigit_of_mem_digits hb)

lemma dash_eq : utf8 " - " = [32, 45, 32] := by decide

lemma dash_clean : ∀ b ∈ utf8 " - ", Clean b := by
  simp [dash_eq, Clean]

lemma clean_of_mem_line {row : Option Row} (h : Readable row) {id b : UInt8}
    (hb : b ∈ line row id) : Clean b := by
  have hname : ∀ b ∈ nameOf row ++ number id, Clean b := by
    intro b hb
    obtain hb | hb := List.mem_append.mp hb
    · exact h.name_clean b hb
    · exact clean_of_mem_number hb
  unfold line withDesc at hb
  split at hb
  · exact hname b hb
  · obtain hb | hb := List.mem_append.mp hb
    · exact hname b hb
    · obtain hb | hb := List.mem_append.mp hb
      · exact dash_clean b hb
      · exact h.desc_clean b hb

lemma readId_line {row : Option Row} (h : Readable row) (id : UInt8) :
    readId (line row id) = some id.toNat := by
  have hcolon : ∀ rest, (number id ++ rest).head?.any isDigit = false := fun rest => by
    rw [number, List.cons_append, List.head?_cons, Option.any_some]
    decide
  unfold line withDesc
  split
  · rw [readId_append h.plain (by simpa using hcolon []), ← List.append_nil (number id)]
    exact readId_number id rfl
  · rw [List.append_assoc, readId_append h.plain (hcolon _)]
    exact readId_number id (by rw [dash_eq]; rfl)

/-- Two lines are read back. -/
lemma readMessageId_lines {main sub : Option Row} (hmain : Readable main) (hsub : Readable sub)
    (mainId subId : UInt8) :
    readMessageId (10 :: line main mainId ++ 10 :: line sub subId) =
      some (mainId.toNat, subId.toNat) := by
  have hline : ∀ b ∈ line main mainId, decide (b ≠ 10) = true := fun b hb =>
    decide_eq_true (clean_of_mem_line hmain hb).2.1
  have htake : (line main mainId ++ 10 :: line sub subId).takeWhile (· ≠ 10) = line main mainId := by
    rw [List.takeWhile_append_of_pos hline]
    simp
  have hdrop : (line main mainId ++ 10 :: line sub subId).dropWhile (· ≠ 10) =
      10 :: line sub subId := by
    rw [List.dropWhile_append_of_pos hline]
    simp
  simp only [readMessageId, List.cons_append, List.drop_one, List.tail_cons, htake, hdrop,
    readId_line hmain, readId_line hsub]
  rfl

lemma level_tables :
    ∀ rows ∈ tables, ∀ row ∈ rows, row.level_ ≠ .fatal ∧ row.level_ ≠ .critical := by
  decide

lemma rowOf_mem_tables {mainId subId : UInt8} {hall game : Bool} {row : Row}
    (h : (rowOf value subId (consulted value mainId hall game)).or (rowOf value mainId mainid_) =
      some row) : ∃ rows ∈ tables, row ∈ rows := by
  obtain h | ⟨-, h⟩ := Option.or_eq_some_iff.mp h
  · exact exists_mem_tables value h
  · exact ⟨mainid_, by simp [tables], List.mem_of_find?_eq_some h⟩

/-- With the function of `TraceMsg.cc` the macro logs a text with a level once. -/
lemma traceMessageId_eq {callee : Callee} (mainId subId : UInt8)
    (hcallee : callee [] mainId subId false false = fmtMessageId value [] mainId subId false false) :
    traceMessageId callee mainId subId =
      if Silent value mainId subId false false then some []
      else (levelOf value mainId subId false false).map fun lvl =>
        [(lvl, (fmtMessageId value [] mainId subId false false).1)] := by
  unfold traceMessageId
  rw [hcallee, fmtMessageId_eq]
  by_cases hsilent : Silent value mainId subId false false
  · simp [hsilent]
  · simp only [if_neg hsilent, List.cons_append, List.isEmpty_cons, Bool.false_eq_true, if_false]
    cases hlevel : levelOf value mainId subId false false with
    | none => rfl
    | some lvl =>
      obtain ⟨row, hrow, rfl⟩ := Option.map_eq_some_iff.mp hlevel
      obtain ⟨rows, hrows, hmem⟩ := rowOf_mem_tables value hrow
      obtain ⟨hfatal, hcritical⟩ := level_tables rows hrows row hmem
      cases hl : row.level_ <;> first | rfl | exact absurd hl hfatal | exact absurd hl hcritical

/-- **What the log says of a message.**  Every message is either left out, which are the messages of
a client to the hall or to a game server with a sub id that no table has, or its text is written,
from which its two ids can be read back.  The level is the one of the row of the sub id, else the
one of the main id, else it is not initialised.  If the callee of the macro `TraceMessageId` is the
function of `TraceMsg.cc`, a message with a level is logged once, since no row has a level that the
switch of the macro has not got or falls through; the logger gets the text as a format, and writes
it as it stands: it has no `%`. -/
theorem trace_outcome (value : String → ℤ) (callee : Callee)
    (hcallee : ∀ str mainId subId hall game,
      callee str mainId subId hall game = fmtMessageId value str mainId subId hall game)
    (str : Bytes) (mainId subId : UInt8) (hall game : Bool) :
    let r := fmtMessageId value str mainId subId hall game
    r.2 = levelOf value mainId subId hall game ∧
    (Silent value mainId subId hall game ∧ r.1 = str ∨
      ¬ Silent value mainId subId hall game ∧
        readMessageId r.1 = some (mainId.toNat, subId.toNat) ∧ 0 ∉ r.1 ∧ 37 ∉ r.1) ∧
    traceMessageId callee mainId subId =
      if Silent value mainId subId false false then some []
      else (levelOf value mainId subId false false).map fun lvl =>
        [(lvl, (fmtMessageId value [] mainId subId false false).1)] := by
  have hmain := readable_main value mainId
  have hsub := readable_sub value mainId subId hall game
  refine ⟨by rw [fmtMessageId_eq], ?_, traceMessageId_eq value mainId subId (hcallee _ _ _ _ _)⟩
  rw [fmtMessageId_eq]
  by_cases hsilent : Silent value mainId subId hall game
  · exact .inl ⟨hsilent, if_pos hsilent⟩
  · have hclean : ∀ b ∈ 10 :: line (rowOf value mainId mainid_) mainId ++
        10 :: line (rowOf value subId (consulted value mainId hall game)) subId,
        b ≠ 0 ∧ b ≠ 37 := by
      simp only [List.cons_append, List.forall_mem_cons, List.forall_mem_append]
      exact ⟨by decide,
        fun b hb => ⟨(clean_of_mem_line hmain hb).1, (clean_of_mem_line hmain hb).2.2⟩,
        by decide,
        fun b hb => ⟨(clean_of_mem_line hsub hb).1, (clean_of_mem_line hsub hb).2.2⟩⟩
    refine .inr ⟨hsilent, ?_⟩
    simp only [if_neg hsilent]
    exact ⟨readMessageId_lines hmain hsub mainId subId, fun h => (hclean 0 h).1 rfl,
      fun h => (hclean 37 h).2 rfl⟩

/-- Numbers for the enumerators of a request for the AES key; the others have none of a byte. -/
def sampleValue (name : String) : ℤ :=
  if name = clientToProxy then 1
  else if name =
    "::Game::Common::MESSAGE_CLIENT_TO_PROXY_SUBID::CLIENT_TO_PROXY_GET_AES_KEY_MESSAGE_REQ" then 5
  else -1

/-- The request for the AES key is logged once, with both ids. -/
theorem trace_outcome_aes_key :
    readMessageId (fmtMessageId sampleValue [] 1 5 false false).1 = some (1, 5) ∧
    traceMessageId (fmtMessageId sampleValue) 1 5 =
      some [(.debug, (fmtMessageId sampleValue [] 1 5 false false).1)] := by
  have hsilent : ¬ Silent sampleValue 1 5 false false := by decide +kernel
  have hlevel : levelOf sampleValue 1 5 false false = some .debug := by decide +kernel
  obtain ⟨-, hread, hlogged⟩ := trace_outcome sampleValue (fmtMessageId sampleValue)
    (fun _ _ _ _ _ => rfl) [] 1 5 false false
  rw [if_neg hsilent, hlevel] at hlogged
  obtain ⟨hsilent', -⟩ | ⟨-, hread, -⟩ := hread
  · exact absurd hsilent' hsilent
  · exact ⟨hread, hlogged⟩

end CppServer.Trace

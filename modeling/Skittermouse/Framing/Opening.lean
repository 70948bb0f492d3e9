import Skittermouse.Encodings.Base64Text
import Skittermouse.Platform.WsOpening

namespace Skittermouse.Framing

open Skittermouse.Data Skittermouse.Core Skittermouse.Crypto Skittermouse.Encodings Skittermouse.Net
open Skittermouse.Platform

/-! # The opening handshake hands the stream over

Both ends read the header byte by byte and stop behind its blank line, so that the
first frame, which may have arrived with it, is left for the assembler.
-/

structure Header (text : Bytes) : Prop where
  ends : kBlankLine <:+: text
  first : ∀ front, front <+: text → kBlankLine <:+: front → front = text

variable {text stream header rest line tail : Bytes} {ending : SocketEnd}

/-- Of the text read so far only the whole may have a blank line in it. -/
def Unfinished (text : Bytes) : Prop :=
  ∀ front, front <+: text → kBlankLine <:+: front → front = text

theorem Unfinished.concat (open_ : (search kBlankLine text).isSome = false) (byte : UInt8) :
    Unfinished (text ++ [byte]) := by
  intro front within blank
  rcases List.prefix_concat_iff.mp within with whole | shorter
  · exact whole
  · have inside : kBlankLine <:+: text := blank.trans shorter.isInfix
    rw [search_isSome.mpr inside] at open_
    contradiction

theorem readHeader_sound (reading : Unfinished text) (short : text.length ≤ kMaxHeader)
    (read : readHeader ending text stream = .header header rest) :
    text ++ stream = header ++ rest ∧ Header header ∧ header.length ≤ kMaxHeader := by
  induction stream generalizing text with
  | nil =>
      rw [readHeader] at read
      split at read
      · rename_i found
        cases read
        exact ⟨rfl, ⟨search_isSome.mp found, reading⟩, short⟩
      · split at read <;> contradiction
  | cons byte stream ih =>
      rw [readHeader] at read
      split at read
      · rename_i found
        cases read
        exact ⟨rfl, ⟨search_isSome.mp found, reading⟩, short⟩
      · rename_i open_
        split at read
        · contradiction
        · rename_i fits
          obtain ⟨whole, header, short⟩ :=
            ih (.concat (Bool.eq_false_of_not_eq_true open_) byte) (not_lt.mp fits) read
          rw [List.append_assoc] at whole
          exact ⟨whole, header, short⟩

theorem readHeader_complete (head : Header (text ++ tail)) (short : (text ++ tail).length ≤ kMaxHeader) :
    readHeader ending text (tail ++ rest) = .header (text ++ tail) rest := by
  induction tail generalizing text with
  | nil =>
      rw [List.append_nil] at head ⊢
      have found := search_isSome.mpr head.ends
      cases rest <;> exact if_pos found
  | cons byte tail ih =>
      have proper : ¬ (search kBlankLine text).isSome = true := fun found => by
        have whole := head.first text (List.prefix_append _ _) (search_isSome.mp found)
        exact absurd (List.self_eq_append_right.mp whole) (List.cons_ne_nil _ _)
      rw [List.append_cons] at head short ⊢
      have fits : ¬ (text ++ [byte]).length > kMaxHeader :=
        not_lt.mpr ((List.prefix_append _ _).length_le.trans short)
      rw [List.cons_append, readHeader, if_neg proper, if_neg fits]
      exact ih head short

/-- The loop stops exactly behind the first blank line. -/
theorem readHeader_iff : readHeader ending [] stream = .header header rest ↔
    stream = header ++ rest ∧ Header header ∧ header.length ≤ kMaxHeader := by
  constructor
  · exact readHeader_sound (fun front within _ => List.prefix_nil.mp within) (Nat.zero_le _)
  · rintro ⟨rfl, head, short⟩
    exact readHeader_complete head short

theorem kBlankLine_eq : kBlankLine = [13, 10, 13, 10] := by decide

theorem blank_behind (clean : 13 ∉ line) (blank : kBlankLine <:+: line ++ tail) :
    kBlankLine <:+: tail := by
  induction line with
  | nil => exact blank
  | cons first line ih =>
      rw [List.mem_cons, not_or] at clean
      refine (List.infix_cons_iff.mp blank).elim (fun begins => ?_) (ih clean.2)
      exact absurd (List.cons_prefix_cons.mp begins).1 clean.1

theorem Header.behind (head : Header tail) (clean : 13 ∉ line) : Header (line ++ tail) where
  ends := head.ends.trans (List.suffix_append _ _).isInfix
  first front within blank := by
    obtain ⟨after, whole⟩ := within
    rcases List.append_eq_append_iff.mp whole with ⟨more, rfl, _⟩ | ⟨begun, rfl, split_⟩
    · have inside := blank_behind (fun stop => clean (List.mem_append_left _ stop))
        (by rw [List.append_nil]; exact blank : kBlankLine <:+: front ++ [])
      exact absurd (List.infix_nil.mp inside) (by decide)
    · rw [head.first begun ⟨after, split_.symm⟩ (blank_behind clean blank)]

theorem Header.lineEnd (head : Header tail) (goes : tail.head? ≠ some 13) :
    Header (13 :: 10 :: tail) where
  ends := head.ends.trans (List.suffix_append [13, 10] tail).isInfix
  first front within blank := by
    have long := blank.length_le
    rcases List.prefix_cons_iff.mp within with rfl | ⟨behind, rfl, inner⟩
    · exact absurd long (by decide)
    rcases List.prefix_cons_iff.mp inner with rfl | ⟨front, rfl, begun⟩
    · exact absurd long (by decide)
    rw [kBlankLine_eq, List.infix_cons_iff, List.infix_cons_iff] at blank
    rcases blank with begins | begins | inside
    · rw [List.cons_prefix_cons, List.cons_prefix_cons] at begins
      obtain ⟨more, rfl⟩ := begins.2.2.trans begun
      exact absurd rfl goes
    · exact absurd (List.cons_prefix_cons.mp begins).1 (by decide)
    · rw [head.first front begun (kBlankLine_eq ▸ inside)]

theorem header_blank : Header kBlankLine where
  ends := List.infix_rfl
  first _ within blank := within.eq_of_length_le blank.length_le

def Lines (text : Bytes) : Prop := Header text ∧ text.head? ≠ some 13

theorem lines_head (clean : 13 ∉ line) (some_ : line ≠ []) : (line ++ tail).head? ≠ some 13 := by
  cases line with
  | nil => contradiction
  | cons first line => exact fun same => clean (List.mem_cons.mpr (.inl (Option.some.inj same).symm))

theorem Lines.cons (lines : Lines tail) (clean : 13 ∉ line) (some_ : line ≠ []) :
    Lines (line ++ 13 :: 10 :: tail) :=
  ⟨(lines.1.lineEnd lines.2).behind clean, lines_head clean some_⟩

theorem lines_last (clean : 13 ∉ line) (some_ : line ≠ []) : Lines (line ++ kBlankLine) :=
  ⟨Header.behind header_blank clean, lines_head clean some_⟩

variable {host key : Bytes} {sha1 : Bytes → Hash160}

def requestFront (host : Bytes) : Bytes :=
  textOf "GET /input HTTP/1.1" ++ 13 :: 10 :: (textOf "Host: " ++ host ++ 13 :: 10 ::
    (textOf "Upgrade: websocket" ++ 13 :: 10 :: (textOf "Connection: Upgrade" ++ [13, 10])))

theorem request_eq : wsBuildClientHandshake host (textOf "/input") key =
    requestFront host ++ kKeyTag ++ (32 :: key ++ 13 :: 10 ::
      (textOf "Sec-WebSocket-Version: 13" ++ kBlankLine)) := by
  have first : textOf "GET " ++ (textOf "/input" ++ textOf " HTTP/1.1\r\n") =
      textOf "GET /input HTTP/1.1" ++ [13, 10] := by decide
  have upgrade : textOf "Upgrade: websocket\r\n" = textOf "Upgrade: websocket" ++ [13, 10] := by decide
  have connection : textOf "Connection: Upgrade\r\n" = textOf "Connection: Upgrade" ++ [13, 10] := by
    decide
  have tag : textOf "Sec-WebSocket-Key: " = kKeyTag ++ [32] := by decide
  have version : textOf "Sec-WebSocket-Version: 13\r\n\r\n" =
      textOf "Sec-WebSocket-Version: 13" ++ kBlankLine := by decide
  have lineEnd : textOf "\r\n" = [13, 10] := by decide
  rw [wsBuildClientHandshake, requestFront, List.append_assoc (textOf "GET "), first, upgrade, connection,
    tag, version, lineEnd]
  simp only [List.append_assoc, List.cons_append, List.nil_append]

theorem response_eq : wsBuildServerResponse sha1 key =
    textOf "HTTP/1.1 101 Switching Protocols" ++ 13 :: 10 :: (textOf "Upgrade: websocket" ++ 13 :: 10 ::
      (textOf "Connection: Upgrade" ++ 13 :: 10 ::
        (textOf "Sec-WebSocket-Accept: " ++ wsAcceptKey sha1 key ++ kBlankLine))) := by
  have first : textOf "HTTP/1.1 101 Switching Protocols\r\n" =
      textOf "HTTP/1.1 101 Switching Protocols" ++ [13, 10] := by decide
  have upgrade : textOf "Upgrade: websocket\r\n" = textOf "Upgrade: websocket" ++ [13, 10] := by decide
  have connection : textOf "Connection: Upgrade\r\n" = textOf "Connection: Upgrade" ++ [13, 10] := by
    decide
  rw [wsBuildServerResponse, first, upgrade, connection, kBlankLine]
  simp only [List.append_assoc, List.cons_append, List.nil_append]

theorem request_header (cleanHost : 13 ∉ host) (cleanKey : 13 ∉ key) :
    Header (wsBuildClientHandshake host (textOf "/input") key) := by
  have hostLine : 13 ∉ textOf "Host: " ++ host := List.not_mem_append (by decide) cleanHost
  have keyLine : 13 ∉ kKeyTag ++ 32 :: key := List.not_mem_append (by decide) (by simpa using cleanKey)
  have version : Lines (textOf "Sec-WebSocket-Version: 13" ++ kBlankLine) :=
    lines_last (by decide) (by decide)
  have lines := (((((version.cons keyLine (List.cons_ne_nil _ _)).cons
    (by decide : 13 ∉ textOf "Connection: Upgrade") (by decide)).cons
    (by decide : 13 ∉ textOf "Upgrade: websocket") (by decide)).cons
    hostLine (List.cons_ne_nil _ _)).cons
    (by decide : 13 ∉ textOf "GET /input HTTP/1.1") (by decide)).1
  rw [request_eq, requestFront]
  simpa only [List.append_assoc, List.cons_append, List.nil_append] using lines

theorem response_header (cleanAccept : 13 ∉ wsAcceptKey sha1 key) :
    Header (wsBuildServerResponse sha1 key) := by
  have accept : Lines (textOf "Sec-WebSocket-Accept: " ++ wsAcceptKey sha1 key ++ kBlankLine) :=
    lines_last (List.not_mem_append (by decide) cleanAccept) (List.cons_ne_nil _ _)
  rw [response_eq]
  exact (((accept.cons (by decide : 13 ∉ textOf "Connection: Upgrade") (by decide)).cons
    (by decide : 13 ∉ textOf "Upgrade: websocket") (by decide)).cons (by decide) (by decide)).1

def Foreign (byte : UInt8) : Prop := byte ∉ base64Alphabet ∧ byte ≠ equalsSign

theorem base64Encode_clean {byte : UInt8} (foreign : Foreign byte) (data : Bytes) :
    byte ∉ base64Encode data := by
  obtain ⟨sextets, text, _⟩ := base64Encode_sextets data
  rw [text]
  refine List.not_mem_append (fun member => ?_) fun member => ?_
  · obtain ⟨index, _, rfl⟩ := List.mem_map.mp member
    exact foreign.1 (List.get_mem _ _)
  · exact foreign.2 (List.eq_of_mem_replicate member)

theorem foreign_separators : ∀ byte ∈ [32, 9, 13, 10], Foreign byte := by
  unfold Foreign
  decide +kernel

theorem tag_split {before : Bytes} (inside : kKeyTag <:+: before ++ 13 :: 10 :: rest) :
    kKeyTag <:+: before ∨ kKeyTag <:+: rest := by
  refine (infix_split (by decide) inside).imp_right fun behind => ?_
  have behind : kKeyTag <:+: [] ++ 10 :: rest := behind
  exact (infix_split (by decide) behind).resolve_left (by decide)

theorem requestFront_untagged (untagged : ¬ kKeyTag <:+: host) :
    ¬ kKeyTag <:+: requestFront host ++ kKeyTag.dropLast := by
  intro inside
  simp only [requestFront, List.append_assoc, List.cons_append, List.nil_append] at inside
  have behind := (tag_split inside).resolve_left (by decide)
  rw [← List.append_assoc] at behind
  rcases tag_split behind with hostLine | behind
  · have hostLine : kKeyTag <:+: textOf "Host:" ++ 32 :: host := hostLine
    exact (infix_split (by decide) hostLine).elim (by decide) untagged
  · have behind := (tag_split behind).resolve_left (by decide)
    exact (tag_split behind).elim (by decide) (by decide)

/-- The server reads the key that the client has written. -/
theorem parseKeyFromRequest_request (untagged : ¬ kKeyTag <:+: host)
    (clean : ∀ byte ∈ [32, 9, 13, 10], byte ∉ key) (some_ : key ≠ []) :
    parseKeyFromRequest (wsBuildClientHandshake host (textOf "/input") key) = key := by
  have lineEnd : textOf "\r\n" = [13, 10] := by decide
  have unended : ¬ [13, 10] <:+: key ++ ([13, 10] : Bytes).dropLast := fun inside => by
    have last : (10 : UInt8) ∈ key ++ [13] := inside.subset (by decide)
    rcases List.mem_append.mp last with member | member
    · exact clean 10 (by decide) member
    · exact absurd member (by decide)
  rw [request_eq, parseKeyFromRequest, search_append (requestFront_untagged untagged)]
  dsimp only
  rw [← List.length_append, List.drop_left]
  obtain ⟨first, more, rfl⟩ := List.exists_cons_of_ne_nil some_
  have value : ((32 :: (first :: more) ++ 13 :: 10 ::
      (textOf "Sec-WebSocket-Version: 13" ++ kBlankLine)).dropWhile isBlankOrTab) =
      (first :: more) ++ [13, 10] ++ (textOf "Sec-WebSocket-Version: 13" ++ kBlankLine) := by
    have stops : isBlankOrTab first = false := by
      have blank : first ≠ 32 := fun same => clean 32 (by decide) (same ▸ List.mem_cons_self)
      have tab : first ≠ 9 := fun same => clean 9 (by decide) (same ▸ List.mem_cons_self)
      simp [isBlankOrTab, blank, tab]
    rw [List.cons_append, List.dropWhile_cons_of_pos rfl, List.cons_append,
      List.dropWhile_cons_of_neg (by rw [stops]; exact Bool.false_ne_true), List.append_assoc]
    rfl
  rw [value, lineEnd, search_append unended]
  dsimp only
  rw [List.append_assoc, List.take_left]

variable (sha1)

/-- For every stream that may arrive: the server comes up exactly where it begins with a
header of at most `kMaxHeader` bytes that has a key, and the answer is accepted; it has
then read this header and not a byte more. -/
theorem accepts_behind_header (transport after : WsTransport) :
    transport.acceptServerSide sha1 = some (true, after) ↔
      ∃ req readable socket, transport.socket.readable = req ++ readable ∧ Header req ∧
        req.length ≤ kMaxHeader ∧ parseKeyFromRequest req ≠ [] ∧
        ({ transport.socket with readable } : Socket).sendAll
          (wsBuildServerResponse sha1 (parseKeyFromRequest req)) = (true, socket) ∧
        after = { transport with socket, connected := true } := by
  constructor
  · intro accepted
    unfold WsTransport.acceptServerSide at accepted
    split at accepted
    · contradiction
    · cases accepted
    · rename_i req readable read
      obtain ⟨whole, head, short⟩ := readHeader_iff.mp read
      dsimp only at accepted
      split at accepted
      · cases accepted
      · rename_i keyed
        split at accepted
        · rename_i sent
          cases accepted
          exact ⟨req, readable, _, whole, head, short, fun empty => keyed (List.isEmpty_iff.mpr empty),
            Prod.ext sent rfl, rfl⟩
        · cases accepted
  · rintro ⟨req, readable, socket, whole, head, short, keyed, sent, rfl⟩
    have read : readHeader transport.socket.ending [] transport.socket.readable = .header req readable :=
      readHeader_iff.mpr ⟨whole, head, short⟩
    unfold WsTransport.acceptServerSide
    rw [read]
    dsimp only
    rw [if_neg (fun empty => keyed (List.isEmpty_iff.mp empty)), sent]
    rfl

/-- The client writes its request, and comes up exactly where the stream begins with a
header that answers its key; it has then read this header and not a byte more. -/
theorem connects_behind_header {transport : WsTransport} (down : transport.connected = false)
    (after : WsTransport) (host : Bytes) (port : UInt16) (random : Bytes) (raw : Socket) :
    transport.connect sha1 host port random (some raw) = some (true, after) ↔
      ∃ resp readable socket,
        raw.sendAll (wsBuildClientHandshake (host ++ textOf ":" ++ decimal port.toNat) (textOf "/input")
          (wsGenerateClientKey random)) = (true, socket) ∧
        raw.readable = resp ++ readable ∧ Header resp ∧ resp.length ≤ kMaxHeader ∧
        wsAcceptKey sha1 (wsGenerateClientKey random) <:+: resp ∧
        after = { transport with socket := { socket with readable }, connected := true } := by
  unfold WsTransport.connect
  rw [down, if_neg Bool.false_ne_true]
  dsimp only
  generalize wsBuildClientHandshake _ _ _ = req
  constructor
  · intro connected
    split at connected
    · cases connected
    · rename_i sent
      split at connected
      · contradiction
      · cases connected
      · rename_i resp readable read
        obtain ⟨whole, head, short⟩ := readHeader_iff.mp read
        split at connected
        · cases connected
        · rename_i answered
          cases connected
          refine ⟨resp, readable, _, Prod.ext (by simpa using sent) rfl, whole, head, short, ?_, rfl⟩
          exact not_not.mp fun missing => answered (search_isNone.mpr missing)
  · rintro ⟨resp, readable, socket, sent, whole, head, short, answered, rfl⟩
    have same : socket.readable = raw.readable := by
      have unread : (raw.sendAll req).2.readable = raw.readable := rfl
      rwa [sent] at unread
    have read : readHeader socket.ending [] socket.readable = .header resp readable :=
      readHeader_iff.mpr ⟨same.trans whole, head, short⟩
    rw [sent, read]
    dsimp only
    rw [if_neg (by decide), if_neg fun missing => search_isNone.mp missing answered]

theorem response_short : (wsBuildServerResponse sha1 key).length ≤ kMaxHeader := by
  have size : (wsAcceptKey sha1 key).length = 28 := by
    rw [wsAcceptKey, base64Encode_length, (sha1 (key ++ kMagicGuid)).property]
  rw [response_eq]
  simp only [List.length_append, List.length_cons, size]
  decide

theorem accept_answers : wsAcceptKey sha1 key <:+: wsBuildServerResponse sha1 key := by
  rw [wsBuildServerResponse]
  simp only [← List.append_assoc]
  rw [List.append_assoc _ (wsAcceptKey sha1 key)]
  exact ⟨_, _, List.append_assoc _ _ _⟩

/-- The two ends of a connection open it, each from what the other has written, and
whatever either sends behind its header, however early it arrives, is left for the
frames of the other. -/
theorem opening_meets {accepted caller : WsTransport} {raw : Socket} {host random : Bytes} {port : UInt16}
    (toServer toClient : Bytes) (some_ : random ≠ []) (cleanHost : 13 ∉ host)
    (untagged : ¬ kKeyTag <:+: host ++ textOf ":" ++ decimal port.toNat)
    (down : caller.connected = false) :
    let key := wsGenerateClientKey random
    let req := wsBuildClientHandshake (host ++ textOf ":" ++ decimal port.toNat) (textOf "/input") key
    let resp := wsBuildServerResponse sha1 key
    req.length ≤ kMaxHeader →
    (raw.sendAll req).1 = true → (accepted.socket.sendAll resp).1 = true →
    accepted.socket.readable = req ++ toServer → raw.readable = resp ++ toClient →
    ∃ server client, accepted.acceptServerSide sha1 = some (true, server) ∧
      caller.connect sha1 host port random (some raw) = some (true, client) ∧
      server.connected = true ∧ server.socket.readable = toServer ∧
      server.socket.written = accepted.socket.written ++ resp ∧
      client.connected = true ∧ client.socket.readable = toClient ∧
      client.socket.written = raw.written ++ req := by
  intro key req resp short sends answers fromClient fromServer
  have clean : ∀ byte ∈ [32, 9, 13, 10], byte ∉ key := fun byte member =>
    base64Encode_clean (foreign_separators byte member) random
  have cleanAccept : 13 ∉ wsAcceptKey sha1 key :=
    base64Encode_clean (foreign_separators 13 (by decide)) _
  have cleanAddress : 13 ∉ host ++ textOf ":" ++ decimal port.toNat := by
    refine List.not_mem_append (List.not_mem_append cleanHost (by decide)) fun member => ?_
    exact absurd (decimal_digits _ _ member) (by decide)
  have keyed : key ≠ [] := fun empty => some_ (base64Encode_injective (empty.trans rfl))
  have parsed : parseKeyFromRequest req = key := parseKeyFromRequest_request untagged clean keyed
  have serves : accepted.acceptServerSide sha1 = some (true, _) :=
    (accepts_behind_header sha1 accepted _).mpr
      ⟨req, toServer, _, fromClient, request_header cleanAddress (clean 13 (by decide)), short,
        parsed.symm ▸ keyed, by rw [parsed]; exact Socket.sendAll_sent answers, rfl⟩
  have connects : caller.connect sha1 host port random (some raw) = some (true, _) :=
    (connects_behind_header sha1 down _ host port random raw).mpr
      ⟨resp, toClient, _, Socket.sendAll_sent sends, fromServer, response_header cleanAccept, response_short sha1,
        accept_answers sha1, rfl⟩
  exact ⟨_, _, serves, connects, rfl, rfl, rfl, rfl, rfl, rfl⟩

def openSocket (readable : Bytes) : Socket := ⟨readable, .pending, [], [.accepts 1000], []⟩

def fresh (client : Bool) (socket : Socket) : WsTransport := ⟨socket, client, false, ⟨[]⟩, []⟩

def zeros (size : Nat) : Bytes := List.replicate size 0

def flatSha1 (_ : Bytes) : Hash160 := ⟨zeros 20, rfl⟩

def nearRequest : Bytes :=
  wsBuildClientHandshake (textOf "10.0.0.7" ++ textOf ":" ++ decimal 47800) (textOf "/input")
    (wsGenerateClientKey (zeros 16))

def nearResponse : Bytes := wsBuildServerResponse flatSha1 (wsGenerateClientKey (zeros 16))

/-- A machine dials another one, and a frame of two bytes comes with the answer. -/
theorem opens_on_the_lan : ∃ server client,
    (fresh false (openSocket (nearRequest ++ []))).acceptServerSide flatSha1 = some (true, server) ∧
      (fresh true (openSocket [])).connect flatSha1 (textOf "10.0.0.7") 47800 (zeros 16)
        (some (openSocket (nearResponse ++ [0x82, 0x00]))) = some (true, client) ∧
      server.connected = true ∧ server.socket.readable = [] ∧ server.socket.written = [] ++ nearResponse ∧
      client.connected = true ∧ client.socket.readable = [0x82, 0x00] ∧
      client.socket.written = [] ++ nearRequest :=
  opening_meets flatSha1 [] [0x82, 0x00] (by decide) (by decide) (by decide) rfl (by decide +kernel)
    (by decide +kernel) (by decide +kernel) rfl rfl

end Skittermouse.Framing

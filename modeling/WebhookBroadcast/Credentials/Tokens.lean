import WebhookBroadcast.Codec.Base64url
import WebhookBroadcast.Ingest.Routes
import WebhookBroadcast.Js.Split

/-!
# Tokens

The bearer secrets that the service mints, `apps/api/src/tokens.ts`.  A token is
a wire prefix for its kind and 24 random bytes in base64url.  What is stored of
it is a hash and its first twelve characters.
-/

namespace WebhookBroadcast

open Codec

def TOKEN_RANDOM_BYTES : ℕ := 24

def PREFIX_LENGTH : ℕ := 12

/-- `randomBytes(TOKEN_RANDOM_BYTES)`. -/
abbrev RandomBytes := {bytes : List UInt8 // bytes.length = TOKEN_RANDOM_BYTES}

def zeroBytes : RandomBytes :=
  ⟨List.replicate TOKEN_RANDOM_BYTES 0, List.length_replicate⟩

structure MintedToken where
  token : String
  tokenHash : String
  prefix_ : String
deriving DecidableEq

/-- The text of a token. -/
def tokenText (wirePrefix : String) (random : RandomBytes) : String :=
  String.ofList (wirePrefix.toList ++ Base64url.encode random.val)

def mintToken (hashToken : String → String) (wirePrefix : String)
    (random : RandomBytes) : MintedToken :=
  let token := tokenText wirePrefix random
  { token := token
    tokenHash := hashToken token
    prefix_ := String.ofList (token.toList.take PREFIX_LENGTH) }

/-- The two kinds of tokens. -/
inductive TokenKind where
  | channel
  | operator
deriving DecidableEq

def TokenKind.wirePrefix : TokenKind → String
  | channel => "wbt_"
  | operator => "wbop_"

def mintChannelToken (hashToken : String → String) (random : RandomBytes) :
    MintedToken :=
  mintToken hashToken TokenKind.channel.wirePrefix random

def mintOperatorToken (hashToken : String → String) (random : RandomBytes) :
    MintedToken :=
  mintToken hashToken TokenKind.operator.wirePrefix random

/-- The token of this kind. -/
def TokenKind.mint (hashToken : String → String) :
    TokenKind → RandomBytes → MintedToken
  | channel => mintChannelToken hashToken
  | operator => mintOperatorToken hashToken

/-! ## What a token shows -/

theorem TokenKind.mint_eq (hashToken : String → String) (kind : TokenKind)
    (random : RandomBytes) :
    kind.mint hashToken random =
      mintToken hashToken kind.wirePrefix random := by
  cases kind <;> rfl

theorem toList_tokenText (wirePrefix : String) (random : RandomBytes) :
    (tokenText wirePrefix random).toList =
      wirePrefix.toList ++ Base64url.encode random.val :=
  String.toList_ofList

/-- The kinds differ in the third character. -/
theorem TokenKind.eq_of_append_eq {kind kind' : TokenKind}
    {rest rest' : List Char}
    (h : kind.wirePrefix.toList ++ rest = kind'.wirePrefix.toList ++ rest') :
    kind = kind' ∧ rest = rest' := by
  cases kind with
  | channel =>
      cases kind' with
      | channel => exact ⟨rfl, List.append_cancel_left h⟩
      | operator => simp [wirePrefix] at h
  | operator =>
      cases kind' with
      | channel => simp [wirePrefix] at h
      | operator => exact ⟨rfl, List.append_cancel_left h⟩

/-- A token tells its kind and its bytes. -/
theorem tokenText_inj {kind kind' : TokenKind} {random random' : RandomBytes} :
    tokenText kind.wirePrefix random = tokenText kind'.wirePrefix random' ↔
      kind = kind' ∧ random = random' := by
  constructor
  · intro h
    have hchars := congrArg String.toList h
    rw [toList_tokenText, toList_tokenText] at hchars
    obtain ⟨hkind, hbytes⟩ := TokenKind.eq_of_append_eq hchars
    exact ⟨hkind, Subtype.ext (Base64url.encode_injective hbytes)⟩
  · rintro ⟨rfl, rfl⟩
    rfl

/-! ## Bearer tokens -/

theorem space_not_mem_tokenText (kind : TokenKind) (random : RandomBytes) :
    ' ' ∉ (tokenText kind.wirePrefix random).toList := by
  rw [toList_tokenText, List.mem_append, not_or]
  refine ⟨by cases kind <;> decide, fun h => ?_⟩
  have halphabet := Base64url.mem_alphabet_of_mem_encode h
  revert halphabet
  decide

/-- Nothing but a space becomes a space in lower case. -/
theorem toLower_space : Char.toLower ' ' = ' ' := rfl

theorem space_not_mem_of_toLowerCase {scheme lower : String}
    (h : Js.toLowerCase scheme = lower) (hlower : ' ' ∉ lower.toList) :
    ' ' ∉ scheme.toList := by
  intro hmem
  apply hlower
  rw [← h, Js.toList_toLowerCase]
  exact List.mem_map.mpr ⟨' ', hmem, toLower_space⟩

/-- A header of a scheme and a token without spaces is split at the space. -/
theorem extractBearerToken_append {scheme token : String}
    (hscheme : Js.toLowerCase scheme = "bearer") (htoken : ' ' ∉ token.toList)
    (hne : token ≠ "") :
    extractBearerToken (scheme ++ " " ++ token) = some token := by
  have hspace := space_not_mem_of_toLowerCase hscheme (by decide)
  have hchars : (scheme ++ " " ++ token).toList =
      scheme.toList ++ ' ' :: token.toList := by
    simp
  have hsplit : (scheme ++ " " ++ token).splitOn " " = [scheme, token] := by
    rw [Js.splitOn_space, hchars,
      List.splitOn_append_cons_self_of_not_mem hspace,
      List.splitOn_eq_singleton htoken]
    simp
  rw [extractBearerToken, hsplit]
  simp [hscheme, hne]

theorem tokenText_ne_empty (kind : TokenKind) (random : RandomBytes) :
    tokenText kind.wirePrefix random ≠ "" := by
  intro h
  have hchars := congrArg String.toList h
  rw [toList_tokenText] at hchars
  cases kind <;> simp [TokenKind.wirePrefix] at hchars

/-! ## Prefixes -/

/-- The prefix is the wire prefix and characters of the first six bytes. -/
theorem prefix_mint (hashToken : String → String) (kind : TokenKind)
    (random : RandomBytes) :
    (kind.mint hashToken random).prefix_ =
      String.ofList (kind.wirePrefix.toList ++
        (Base64url.encode (random.val.take 6)).take
          (PREFIX_LENGTH - kind.wirePrefix.toList.length)) := by
  have hsix : (Base64url.encode random.val).take 8 =
      Base64url.encode (random.val.take 6) := Base64url.take_encode 2 random.val
  rw [TokenKind.mint_eq, mintToken, toList_tokenText, List.take_append,
    ← hsix, List.take_take]
  cases kind with
  | channel => rfl
  | operator => rfl

/-- What a token is good for: it passes through an `Authorization` header in any
spelling of the scheme, no two mints of different kinds or bytes share it, and
what is stored to recognise it tells its kind and no byte after the sixth. -/
theorem mint_format (hashToken : String → String) (kind kind' : TokenKind)
    (random random' : RandomBytes) :
    (∀ scheme, Js.toLowerCase scheme = "bearer" →
      extractBearerToken
          (scheme ++ " " ++ (kind.mint hashToken random).token) =
        some (kind.mint hashToken random).token) ∧
    ((kind.mint hashToken random).token =
        (kind'.mint hashToken random').token ↔
      kind = kind' ∧ random = random') ∧
    ((kind.mint hashToken random).prefix_ =
        (kind'.mint hashToken random').prefix_ → kind = kind') ∧
    (random.val.take 6 = random'.val.take 6 →
      (kind.mint hashToken random).prefix_ =
        (kind.mint hashToken random').prefix_) := by
  refine ⟨fun scheme hscheme => ?_, ?_, fun h => ?_, fun h => ?_⟩
  · rw [TokenKind.mint_eq]
    exact extractBearerToken_append hscheme
      (space_not_mem_tokenText kind random) (tokenText_ne_empty kind random)
  · rw [TokenKind.mint_eq, TokenKind.mint_eq]
    exact tokenText_inj
  · rw [prefix_mint, prefix_mint] at h
    exact (TokenKind.eq_of_append_eq (String.ofList_injective h)).1
  · rw [prefix_mint, prefix_mint, h]

end WebhookBroadcast

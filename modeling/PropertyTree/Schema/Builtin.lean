import PropertyTree.Schema.Basic
/-!
# The built-in schema

The account properties of the messaging client, and the modes that three of them stand for. A mode
is stored as `0` or `1`.
-/

namespace PropertyTree

/-- Who sees that a message was read. -/
inductive ReceiptMode where
  | delivery
  | deliveryAndRead
deriving DecidableEq

/-- Whether typing indicators are sent. -/
inductive TypingIndicatorMode where
  | off
  | on
deriving DecidableEq

/-- The answer to the marketing consent prompt. -/
inductive MarketingConsent where
  | notGiven
  | given
deriving DecidableEq

/-- Reads a two-way mode that is stored as `0` or `1`. -/
def Value.ofModes? {α : Type} (zero one : α) (value : Value) : Option α :=
  match value.toInt64? with
  | some 0 => some zero
  | some 1 => some one
  | _ => none

namespace ReceiptMode

/-- The property that holds the mode. -/
def key : String := "privacy.receipt_mode"

/-- The value that stands for the mode. -/
def toValue : ReceiptMode → Value
  | .delivery => .ofInt 0
  | .deliveryAndRead => .ofInt 1

/-- The mode that a value stands for. -/
def ofValue? : Value → Option ReceiptMode := Value.ofModes? .delivery .deliveryAndRead

end ReceiptMode

namespace TypingIndicatorMode

/-- The property that holds the mode. -/
def key : String := "privacy.typing_indicator_mode"

/-- The value that stands for the mode. -/
def toValue : TypingIndicatorMode → Value
  | .off => .ofInt 0
  | .on => .ofInt 1

/-- The mode that a value stands for. -/
def ofValue? : Value → Option TypingIndicatorMode := Value.ofModes? .off .on

end TypingIndicatorMode

namespace MarketingConsent

/-- The property that holds the answer. -/
def key : String := "privacy.marketing_consent"

/-- The value that stands for the answer. -/
def toValue : MarketingConsent → Value
  | .notGiven => .ofInt 0
  | .given => .ofInt 1

/-- The answer that a value stands for. -/
def ofValue? : Value → Option MarketingConsent := Value.ofModes? .notGiven .given

end MarketingConsent

namespace Schema

/-- A switch with its default. -/
def switch (default : Option Bool) : Descriptor := ⟨.bool, default.map .bool⟩

/-- A choice between texts with its default. -/
def choice (texts : List String) (default : String) : Descriptor :=
  ⟨.oneOf (texts.map .text), some (.text default)⟩

/-- A two-way mode with its default. -/
def mode (default : Value) : Descriptor := ⟨.oneOf [.ofInt 0, .ofInt 1], some default⟩

/-- The built-in properties. Two of the privacy switches have no default: they are unset until the
user has answered a prompt. -/
def builtinProperties : List (String × Descriptor) :=
  [("settings.call.enable_soundless_incoming_calls", switch (some false)),
    ("settings.call.enable_press_space_to_unmute", switch (some false)),
    ("settings.emoji.replace_inline", switch (some true)),
    ("settings.interface.theme", choice ["default", "dark"] "default"),
    ("settings.interface.view_folders", switch (some false)),
    ("settings.interface.markdown_preview", switch (some true)),
    ("settings.notifications", choice ["on", "obfuscate-message", "obfuscate", "none"] "on"),
    ("settings.previews.send", switch (some true)),
    ("settings.privacy.improve_wire", switch none),
    ("settings.privacy.telemetry_sharing", switch none),
    ("settings.sound.alerts", choice ["all", "some", "none"] "all"),
    (ReceiptMode.key, mode ReceiptMode.delivery.toValue),
    (MarketingConsent.key, mode MarketingConsent.notGiven.toValue),
    (TypingIndicatorMode.key, mode TypingIndicatorMode.on.toValue)]

/-- The schema of the built-in properties. -/
def builtin : Schema :=
  builtinProperties.foldl (fun schema (key, descriptor) =>
    match Path.parse key with
    | .ok path => schema.declare path descriptor
    | .error _ => schema) .empty

end Schema

end PropertyTree

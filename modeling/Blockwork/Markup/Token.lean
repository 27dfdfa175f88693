import Blockwork.Markup.Cursor

set_option autoImplicit false

namespace Blockwork.Markup

inductive MarkupFault where
  | forbiddenCharacter
  | strayCharacter
  | strayTab
  | strayEntry
  | strayKey
  | strayValue
  | missingColon
  | unterminated
  | strayDocumentMark
  | badEscape
  | badBlockHeader
  | badAnchor
  | badTag
  | badDirective
  | unknownVersion
  | missingDocumentStart
  | unexpectedToken
  | undefinedTagHandle
  | unknownAnchor
deriving DecidableEq, Repr, Inhabited

inductive TokenKind where
  | streamStart
  | streamEnd
  | version (major minor : Nat)
  | tagHandle (handle replacement : String)
  | documentStart
  | documentEnd
  | blockListStart
  | blockMappingStart
  | blockEnd
  | flowListStart
  | flowListEnd
  | flowMappingStart
  | flowMappingEnd
  | entry
  | separator
  | key
  | value
  | alias (name : String)
  | anchor (name : String)
  | tag (handle suffix : String)
  | scalar (text : String) (plain : Bool)
deriving DecidableEq, Repr, Inhabited

structure Token where
  kind : TokenKind
  start : Place
  stop : Place
deriving DecidableEq, Repr, Inhabited

end Blockwork.Markup

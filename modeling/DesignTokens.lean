import DesignTokens.Json.Reader
import DesignTokens.Main
import DesignTokens.Proofs.Command.ChangeSettings
import DesignTokens.Proofs.Command.Contrast
import DesignTokens.Proofs.Command.IndependentChanges
import DesignTokens.Proofs.Command.TypeScale
import DesignTokens.Proofs.Contrast.Message
import DesignTokens.Proofs.Contrast.Walk
import DesignTokens.Proofs.Json.RoundTrip
import DesignTokens.Proofs.Palette.Hue
import DesignTokens.Proofs.Palette.Readable
import DesignTokens.Proofs.Settings.Session
import DesignTokens.Proofs.TypeScale.Export
import DesignTokens.Proofs.TypeScale.Renderings
import DesignTokens.Proofs.Palette.Theme
import DesignTokens.Proofs.TypeScale.Clamp
import DesignTokens.Proofs.Command.ContrastOutcome
import DesignTokens.Proofs.Settings.Overlay
import DesignTokens.Proofs.TypeScale.Fluid
import DesignTokens.Proofs.TypeScale.Growth
import DesignTokens.Proofs.Color.Wheel
import DesignTokens.Proofs.Color.Conversion
import DesignTokens.Proofs.Color.RoundTrip
import DesignTokens.Proofs.Palette.Period
import DesignTokens.Proofs.Color.Grammar
import DesignTokens.Proofs.Contrast.Target
import DesignTokens.Proofs.Palette.View
import DesignTokens.Proofs.TypeScale.Ratio
import DesignTokens.Proofs.Color.Components
import DesignTokens.Proofs.Palette.Neutral
import DesignTokens.Proofs.Palette.StyleSheet
import DesignTokens.Proofs.TypeScale.ZeroSign
